import RustApi.Lib.Text

/-!
# The error redirect of the login

`is_valid_return_to` and `redirect_target`: the relative path that the login comes back to,
and how an error code is added to its query. The code works on the text; path, query and
fragment are what a browser reads off it.

## Main result

`redirectTarget_keeps_iff`: the paths to which the code is added as a parameter of its own.
-/

namespace RustApi.Auth

open Lib

/-! ### The functions -/

/-- `is_valid_return_to`. `join` resolves the value against `http://localhost/`, as the library
    does, to a scheme and a host. -/
def isValidReturnTo (join : String → Option (String × Option String)) (value : String) : Bool :=
  if !Text.startsWith "/" value || Text.startsWith "//" value || value.toList.contains '\\' ||
      (Text.cutOnce "%5c" value).isSome || (Text.cutOnce "%5C" value).isSome ||
      value.toList.any fun c => decide (c.toNat < 32) || (decide (127 ≤ c.toNat) &&
        decide (c.toNat < 160)) then
    false
  else
    match join value with
    | some (scheme, host) => decide (scheme = "http") && decide (host = some "localhost")
    | none => false

/-- Text before a separator, and what follows it. -/
def cut (sep : Char) (s : String) : String × Option String :=
  match Text.splitOnce sep s with
  | some (before, after) => (before, some after)
  | none => (s, none)

/-- The name of a query parameter. -/
def paramName (pair : String) : String := (cut '=' pair).1

/-- The query has an error parameter. -/
def hasError (query : Option String) : Bool :=
  match query with
  | some query => (Text.split '&' query).any fun pair => decide (paramName pair = "error")
  | none => false

/-- How the error parameter is added to what stands before the fragment. -/
def withError (before : String) (query : Option String) (code : String) : String :=
  if Text.endsWith "?" before || Text.endsWith "&" before then before ++ "error=" ++ code
  else if query.isSome then before ++ "&error=" ++ code
  else before ++ "?error=" ++ code

def redirectTarget (returnTo : String) (error : Option String) : String :=
  match error with
  | none => returnTo
  | some code =>
    let (before, fragment) := cut '#' returnTo
    let query := (cut '?' before).2
    let target := if hasError query then before else withError before query code
    match fragment with
    | some fragment => target ++ "#" ++ fragment
    | none => target

/-! ### What a browser reads -/

def fragmentOf (target : String) : Option String := (cut '#' target).2

def pathOf (target : String) : String := (cut '?' (cut '#' target).1).1

def queryOf (target : String) : Option String := (cut '?' (cut '#' target).1).2

/-- The parameters of a query that are not empty. -/
def params : Option String → List String
  | some query => (Text.split '&' query).filter (· ≠ "")
  | none => []

/-- The error code is added, if there was none, and everything else is kept. -/
structure KeepsTarget (returnTo code : String) : Prop where
  path : pathOf (redirectTarget returnTo (some code)) = pathOf returnTo
  fragment : fragmentOf (redirectTarget returnTo (some code)) = fragmentOf returnTo
  params : params (queryOf (redirectTarget returnTo (some code))) =
    if hasError (queryOf returnTo) then params (queryOf returnTo)
    else params (queryOf returnTo) ++ ["error=" ++ code]
  again : redirectTarget (redirectTarget returnTo (some code)) (some code) =
    redirectTarget returnTo (some code)

/-- The path ends with an ampersand and has no query, or the query itself ends with a question
    mark: the code takes either for the place where a parameter goes. -/
def Misleads (returnTo : String) : Prop :=
  match queryOf returnTo with
  | none => Text.endsWith "&" (pathOf returnTo) = true
  | some query => Text.endsWith "?" query = true

instance (returnTo : String) : Decidable (Misleads returnTo) :=
  decidable_of_iff
    ((match queryOf returnTo with
      | none => Text.endsWith "&" (pathOf returnTo)
      | some query => Text.endsWith "?" query) = true)
    (by unfold Misleads; cases queryOf returnTo <;> rfl)

/-! ### Cutting and joining -/

/-- A separator with what follows it. -/
def tail (sep : Char) : Option String → String
  | some after => String.singleton sep ++ after
  | none => ""

theorem cut_append {sep : Char} {before : String} (free : Text.Free sep before)
    (after : Option String) : cut sep (before ++ tail sep after) = (before, after) := by
  unfold cut
  cases after with
  | none =>
    rw [tail, String.append_empty, Text.splitOnce_eq_none_iff.mpr free]
  | some after =>
    rw [tail, ← String.append_assoc, Text.splitOnce_iff.mpr ⟨rfl, free⟩]

theorem cut_eq (sep : Char) (s : String) :
    s = (cut sep s).1 ++ tail sep (cut sep s).2 ∧ Text.Free sep (cut sep s).1 := by
  unfold cut
  cases found : Text.splitOnce sep s with
  | none => exact ⟨by simp [tail], Text.splitOnce_eq_none_iff.mp found⟩
  | some parts =>
    obtain ⟨same, free⟩ := Text.splitOnce_iff.mp found
    exact ⟨by rw [tail, ← String.append_assoc]; exact same, free⟩

/-- The parts of a path, put together again. -/
structure Parts (returnTo path : String) (query fragment : Option String) : Prop where
  text : returnTo = path ++ tail '?' query ++ tail '#' fragment
  pathFree : Text.Free '?' path
  beforeFree : Text.Free '#' (path ++ tail '?' query)

theorem parts (returnTo : String) :
    Parts returnTo (pathOf returnTo) (queryOf returnTo) (fragmentOf returnTo) := by
  obtain ⟨text, before⟩ := cut_eq '#' returnTo
  obtain ⟨same, path⟩ := cut_eq '?' (cut '#' returnTo).1
  refine ⟨?_, path, ?_⟩
  · rw [pathOf, queryOf, ← same]
    exact text
  · rw [pathOf, queryOf, ← same]
    exact before

theorem Parts.eq {returnTo path : String} {query fragment : Option String}
    (known : Parts returnTo path query fragment) :
    pathOf returnTo = path ∧ queryOf returnTo = query ∧ fragmentOf returnTo = fragment := by
  have outer : cut '#' returnTo = (path ++ tail '?' query, fragment) := by
    rw [known.text]
    exact cut_append known.beforeFree fragment
  have inner := cut_append known.pathFree query
  rw [pathOf, queryOf, fragmentOf, outer]
  exact ⟨congrArg Prod.fst inner, congrArg Prod.snd inner, rfl⟩

theorem before_eq (returnTo : String) :
    (cut '#' returnTo).1 = pathOf returnTo ++ tail '?' (queryOf returnTo) :=
  (cut_eq '?' (cut '#' returnTo).1).1

theorem redirectTarget_eq (returnTo code : String) :
    redirectTarget returnTo (some code) =
      (if hasError (queryOf returnTo) then (cut '#' returnTo).1
        else withError (cut '#' returnTo).1 (queryOf returnTo) code) ++
      tail '#' (fragmentOf returnTo) := by
  unfold redirectTarget queryOf fragmentOf
  dsimp only
  cases (cut '#' returnTo).2 with
  | none => rw [tail, String.append_empty]
  | some fragment => rw [tail, ← String.append_assoc]; rfl

/-- A path with an error parameter is left alone. -/
theorem redirectTarget_of_hasError {returnTo : String} (given : hasError (queryOf returnTo) = true)
    (code : String) : redirectTarget returnTo (some code) = returnTo := by
  rw [redirectTarget_eq, if_pos given]
  exact (cut_eq '#' returnTo).1.symm

/-! ### Where the parameter goes -/

/-- The code has none of the separators of a query. -/
def Plain (code : String) : Prop :=
  Text.Free '&' code ∧ Text.Free '=' code ∧ Text.Free '?' code ∧ Text.Free '#' code

instance (code : String) : Decidable (Plain code) := inferInstanceAs (Decidable (_ ∧ _))

theorem Plain.error_free {code : String} (plain : Plain code) :
    Text.Free '&' ("error=" ++ code) ∧ Text.Free '?' ("error=" ++ code) ∧
      Text.Free '#' ("error=" ++ code) :=
  ⟨Text.Free.append (by decide) plain.1, Text.Free.append (by decide) plain.2.2.1,
    Text.Free.append (by decide) plain.2.2.2⟩

theorem error_ne_empty (code : String) : "error=" ++ code ≠ "" := by
  intro empty
  have chars := congrArg String.toList empty
  rw [String.toList_append] at chars
  exact absurd chars (by simp)

theorem paramName_error (code : String) : paramName ("error=" ++ code) = "error" := by
  have same : "error=" ++ code = "error" ++ tail '=' (some code) := by
    rw [tail, ← String.append_assoc]
    rfl
  have free : Text.Free '=' "error" := by decide
  rw [paramName, same, cut_append free]

/-- The query that the parameter is added to, when the code finds the place. -/
def extended (query : Option String) (error : String) : String :=
  match query with
  | none => error
  | some query =>
    if query = "" ∨ Text.endsWith "&" query = true then query ++ error else query ++ "&" ++ error

/-- The parameters of the query, and behind them the new one. -/
theorem params_extended (query : Option String) {error : String} (free : Text.Free '&' error)
    (given : error ≠ "") :
    params (some (extended query error)) = params query ++ [error] ∧
      (paramName error = "error" → hasError (some (extended query error)) = true) := by
  -- the new parameter is the last part, and what stands before it has the old parameters
  suffices ∃ init, Text.split '&' (extended query error) = init ++ [error] ∧
      init.filter (· ≠ "") = params query by
    obtain ⟨init, parts, same⟩ := this
    constructor
    · rw [params, parts, List.filter_append, same]
      simp [given]
    · intro named
      rw [hasError, parts, List.any_append]
      simp [named]
  unfold extended
  cases query with
  | none => exact ⟨[], Text.split_of_free free, rfl⟩
  | some query =>
    dsimp only
    split
    next ends =>
      -- the last part of the query is empty
      obtain ⟨init, last, parts, lastFree, place, grown⟩ := Text.exists_last_part '&' query
      have empty : last = "" := by
        by_contra some_
        rcases ends with rfl | ends
        · rcases place with same | ⟨t, same⟩
          · exact some_ same.symm
          · exact Text.not_free_sep (same ▸ (by decide : Text.Free '&' ""))
        · have ending : Text.endsWith (String.singleton '&') last = true := by
            rcases place with rfl | ⟨t, rfl⟩
            · exact ends
            · rwa [← Text.endsWith_char_append some_]
          exact lastFree (List.mem_of_getLast? (Text.endsWith_char.mp ending))
      refine ⟨init, ?_, ?_⟩
      · rw [grown error free, empty, String.empty_append]
      · rw [params, parts, empty, List.filter_append]
        simp
    next =>
      refine ⟨Text.split '&' query, ?_, rfl⟩
      have joined : Text.split '&' (query ++ "&" ++ error) = _ := Text.split_sep query error
      rwa [Text.split_of_free free] at joined

theorem joined_error (code : String) : "?error=" ++ code = "?" ++ ("error=" ++ code) ∧
    "&error=" ++ code = "&" ++ ("error=" ++ code) := by
  constructor <;> rw [← String.append_assoc] <;> rfl

/-- The place for the parameter is found, unless the text misleads. -/
theorem withError_eq {returnTo : String} (clear : ¬ Misleads returnTo) (code : String) :
    withError (cut '#' returnTo).1 (queryOf returnTo) code =
      pathOf returnTo ++ tail '?' (some (extended (queryOf returnTo) ("error=" ++ code))) := by
  have pathFree := (parts returnTo).pathFree
  obtain ⟨mark_error, amp_error⟩ := joined_error code
  unfold Misleads at clear
  rw [before_eq, withError]
  -- the code looks at the end of the whole text; `clear` makes that the end of the query
  cases asked : queryOf returnTo with
  | none =>
    simp only [asked, Bool.not_eq_true] at clear
    have noMark : Text.endsWith "?" (pathOf returnTo) = false := by
      by_contra ends
      exact pathFree (List.mem_of_getLast? (Text.endsWith_char.mp (Bool.not_eq_false _ ▸ ends)))
    simp only [tail, String.append_empty, noMark, clear, extended]
    simp [String.append_assoc, mark_error]
  | some query =>
    simp only [asked, Bool.not_eq_true] at clear
    by_cases empty : query = ""
    · subst empty
      have mark : Text.endsWith "?" (pathOf returnTo ++ tail '?' (some "")) = true :=
        Text.endsWith_append _ _
      simp only [mark, extended]
      simp [tail, String.append_assoc, mark_error]
    · have last (c : Char) : Text.endsWith (String.singleton c)
          (pathOf returnTo ++ tail '?' (some query)) = Text.endsWith (String.singleton c) query := by
        rw [tail, ← String.append_assoc, Text.endsWith_char_append empty]
      have mark : Text.endsWith "?" (pathOf returnTo ++ tail '?' (some query)) = false :=
        (last '?').trans clear
      have amp : Text.endsWith "&" (pathOf returnTo ++ tail '?' (some query)) =
          Text.endsWith "&" query := last '&'
      simp only [mark, amp, extended, empty, false_or, Bool.false_or]
      split <;> simp [tail, String.append_assoc, amp_error]

/-- The result has the path and the fragment it had, and the extended query. -/
theorem parts_redirectTarget {returnTo code : String} (plain : Plain code)
    (missing : hasError (queryOf returnTo) = false) (clear : ¬ Misleads returnTo) :
    Parts (redirectTarget returnTo (some code)) (pathOf returnTo)
      (some (extended (queryOf returnTo) ("error=" ++ code))) (fragmentOf returnTo) where
  text := by
    rw [redirectTarget_eq, if_neg (by simp [missing]), withError_eq clear]
  pathFree := (parts returnTo).pathFree
  beforeFree := by
    have before := (parts returnTo).beforeFree
    have added := plain.error_free.2.2
    simp only [Text.Free, String.toList_append, List.mem_append, not_or] at before added ⊢
    refine ⟨before.1, ?_⟩
    unfold extended
    cases asked : queryOf returnTo with
    | none => simpa [tail] using added
    | some query =>
      have given : '#' ∉ query.toList := by simpa [tail, asked] using before.2
      dsimp only
      split <;> simpa [tail, given] using added

/-- What is put behind a question mark belongs to the last parameter. -/
theorem length_params_glued {query error : String} (ends : Text.endsWith "?" query = true)
    (free : Text.Free '&' error) :
    (params (some (query ++ error))).length = (params (some query)).length := by
  obtain ⟨init, last, parts, -, place, grown⟩ := Text.exists_last_part '&' query
  have given : last ≠ "" := by
    rintro rfl
    have final : query.toList.getLast? = some '?' := Text.endsWith_char.mp ends
    rcases place with rfl | ⟨t, rfl⟩ <;> simp at final
  have longer : last ++ error ≠ "" := fun empty => given (String.append_eq_empty_iff.mp empty).1
  simp [params, parts, grown error free, given, longer]

/-- Behind a path or a query that misleads, the code becomes part of what it follows. -/
theorem not_keepsTarget {returnTo code : String} (plain : Plain code)
    (missing : hasError (queryOf returnTo) = false) (misled : Misleads returnTo) :
    ¬ KeepsTarget returnTo code := by
  intro keeps
  obtain ⟨-, pathFree, beforeFree⟩ := parts returnTo
  obtain ⟨-, addedMark, addedHash⟩ := plain.error_free
  unfold Misleads at misled
  have target := redirectTarget_eq returnTo code
  rw [if_neg (by simp [missing]), before_eq, withError] at target
  cases asked : queryOf returnTo with
  | none =>
    have plainTail : pathOf returnTo ++ tail '?' none = pathOf returnTo := String.append_empty
    rw [asked, plainTail] at target beforeFree
    simp only [asked] at misled
    rw [if_pos (by rw [misled, Bool.or_true])] at target
    have known : Parts (redirectTarget returnTo (some code))
        (pathOf returnTo ++ ("error=" ++ code)) none (fragmentOf returnTo) :=
      ⟨by rw [target]; simp only [tail, String.append_empty, String.append_assoc],
        pathFree.append addedMark, by simpa [tail] using beforeFree.append addedHash⟩
    -- the text before the fragment ends like a query, so the code stands in the path
    have same := known.eq.1.symm.trans keeps.path
    exact error_ne_empty code (String.append_eq_left_iff.mp same)
  | some query =>
    simp only [asked] at misled
    have ends : Text.endsWith "?" (pathOf returnTo ++ tail '?' (some query)) = true := by
      obtain ⟨t, rfl⟩ := Text.endsWith_iff.mp misled
      rw [tail, ← String.append_assoc, ← String.append_assoc]
      exact Text.endsWith_append _ _
    rw [asked] at target beforeFree
    rw [if_pos (by rw [ends, Bool.true_or])] at target
    have known : Parts (redirectTarget returnTo (some code)) (pathOf returnTo)
        (some (query ++ ("error=" ++ code))) (fragmentOf returnTo) :=
      ⟨by rw [target]; simp only [tail, String.append_assoc], pathFree, by
        have free := beforeFree.append addedHash
        simpa only [tail, String.append_assoc] using free⟩
    have listed := keeps.params
    rw [known.eq.2.1, if_neg (by simp [missing]), asked] at listed
    -- the code is glued to the last parameter, so none is added
    have same := length_params_glued misled (plain.error_free.1)
    rw [listed, List.length_append] at same
    simp at same

/-- The paths to which the code is added as a parameter of its own: those that have one
    already, and those whose end does not look like the start of a parameter. -/
theorem redirectTarget_keeps_iff {code : String} (plain : Plain code) (returnTo : String) :
    KeepsTarget returnTo code ↔ hasError (queryOf returnTo) = true ∨ ¬ Misleads returnTo := by
  constructor
  · intro keeps
    by_contra fails
    rw [not_or, not_not, Bool.not_eq_true] at fails
    exact not_keepsTarget plain fails.1 fails.2 keeps
  · intro fine
    cases given : hasError (queryOf returnTo) with
    | true =>
      -- a code that is there already is left alone
      have same := redirectTarget_of_hasError given code
      exact ⟨by rw [same], by rw [same], by rw [same, if_pos given], by rw [same, same]⟩
    | false =>
      have clear : ¬ Misleads returnTo := fine.resolve_left (by simp [given])
      obtain ⟨path, query, fragment⟩ := (parts_redirectTarget plain given clear).eq
      obtain ⟨listed, error⟩ := params_extended (queryOf returnTo) plain.error_free.1
        (error_ne_empty code)
      refine ⟨path, fragment, ?_, ?_⟩
      · rw [query, listed, given, if_neg Bool.false_ne_true]
      · refine redirectTarget_of_hasError ?_ code
        rw [query]
        exact error (paramName_error code)

theorem redirectTarget_keeps_notes : KeepsTarget "/notes?tab=1&#top" "login_failed" :=
  (redirectTarget_keeps_iff (by decide) _).mpr (.inr (by decide))

/-- The library resolves a path of this site to this site. -/
def onSite : String → Option (String × Option String) := fun _ => some ("http", some "localhost")

/-- The path `/a&` becomes `/a&error=login_failed`, and the parameter `a?` of the second path
    becomes `a?error=login_failed`. -/
theorem redirectTarget_strays :
    (isValidReturnTo onSite "/a&" = true ∧ ¬ KeepsTarget "/a&" "login_failed") ∧
      isValidReturnTo onSite "/x?a?" = true ∧ ¬ KeepsTarget "/x?a?" "login_failed" := by
  refine ⟨⟨by decide, fun keeps => ?_⟩, by decide, fun keeps => ?_⟩
  · exact absurd keeps.path (by decide)
  · exact absurd keeps.params (by decide)

end RustApi.Auth
