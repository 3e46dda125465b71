import RustApi.Sync.Builds

/-!
# The replica pointer

`GET /sync/status` and `POST /sync/sync`, with the tags they issue and the comparison of an
`If-None-Match` header with a tag.

## Main result

`etags_exact`: a request that sends tags issued to it earlier is answered `304` exactly when
one of them was issued for the state of now, and no tag of one endpoint passes for a tag of
the other.
-/

namespace RustApi.Sync

open Lib

/-! ### Replica prefixes -/

/-- What `SnapshotManager` keeps of its configuration, with the SHA-256 digest it uses. -/
structure Manager where
  dbPrefix : String
  digest : String → List UInt8

/-- `safe_sub`. -/
def Manager.safeSub (m : Manager) (sub : String) : String :=
  String.ofList ((m.digest sub).flatMap fun b =>
    [Adapter.hexDigit (b.toNat / 16), Adapter.hexDigit (b.toNat % 16)])

def Manager.userPrefix (m : Manager) (sub : String) : String :=
  Text.trimMatches '/' m.dbPrefix ++ "/u/" ++ m.safeSub sub

/-! ### Tags -/

def statusEtag (applied : Option Nat) (head : Nat) : String :=
  match applied with
  | some a => "\"snap-" ++ toString a ++ "-h" ++ toString head ++ "\""
  | none => "\"snap-none-h" ++ toString head ++ "\""

def advanceEtag (appliedSeq : Nat) (pending : Bool) : String :=
  "\"snap-" ++ toString appliedSeq ++ "-p" ++ toString pending.toNat ++ "\""

def normalizeEtag (tag : String) : String :=
  let tag := Text.trim tag
  let tag := Text.trim ((Text.stripStart "W/" tag).getD tag)
  ((Text.stripStart "\"" tag).bind (Text.stripEnd "\"")).getD tag

def etagMatches (header etag : String) : Bool :=
  if Text.trim header = "*" then true
  else (Text.split ',' header).any fun tag => decide (normalizeEtag tag = normalizeEtag etag)

/-! ### The two endpoints -/

/-- `visible_ascii` of the header type. -/
def visibleAscii (c : Char) : Bool := (decide (32 ≤ c.toNat) && decide (c.toNat < 127)) || c == '\t'

/-- `HeaderValue::to_str`: only visible ASCII is text. -/
def toStr (value : String) : Option String :=
  if value.toList.all visibleAscii then some value else none

inductive PointerResponse (Body : Type) where
  | notModified (etag : String)
  | ok (etag : String) (body : Body)

namespace PointerResponse

variable {Body : Type}

def etag : PointerResponse Body → String
  | .notModified etag => etag
  | .ok etag _ => etag

def isNotModified : PointerResponse Body → Bool
  | .notModified _ => true
  | .ok .. => false

end PointerResponse

/-- How both endpoints answer once the tag and the body are known. -/
def answer {Body : Type} (ifNoneMatch : Option String) (etag : String) (body : Body) :
    PointerResponse Body :=
  if (ifNoneMatch.bind toStr).any fun header => etagMatches header etag then .notModified etag
  else .ok etag body

/-- `SyncStatusResponse`. `replica` is its `prefix`. -/
structure SyncStatusResponse where
  replica : String
  appliedSeq : Option Nat
  head : Nat

/-- `SyncAdvanceResponse`. `replica` is its `prefix`. -/
structure SyncAdvanceResponse where
  replica : String
  appliedSeq : Nat
  pending : Bool

/-- What the status endpoint reports. -/
structure Coverage where
  applied : Option Nat
  head : Nat
  deriving DecidableEq, Repr

/-- The reads of `status_handler`. -/
def readCoverage (sub : String) : M Coverage := do
  let head ← onWal .head
  let applied ← Snapshot.loadApplied sub
  pure ⟨applied, head⟩

def statusHandler (m : Manager) (sub : String) (ifNoneMatch : Option String) :
    M (PointerResponse SyncStatusResponse) := do
  let now ← readCoverage sub
  pure (answer ifNoneMatch (statusEtag now.applied now.head)
    ⟨m.userPrefix sub, now.applied, now.head⟩)

def syncHandler (m : Manager) (sub : String) (ifNoneMatch : Option String) :
    BuildM (PointerResponse SyncAdvanceResponse) := do
  let outcome ← Builds.advance sub
  pure (answer ifNoneMatch (advanceEtag outcome.appliedSeq outcome.pending)
    ⟨m.userPrefix sub, outcome.appliedSeq, outcome.pending⟩)

/-! ### Tags that were issued -/

/-- The status endpoint answered a request of `sub` with this tag, in this state. -/
def StatusIssued (m : Manager) (sub : String) (state : Coverage) (tag : String) : Prop :=
  ∃ header events response, (readCoverage sub).Path events (.ok state) ∧
    (statusHandler m sub header).Path events (.ok response) ∧ response.etag = tag

/-- The sync endpoint answered a request of `sub` with this tag, after this outcome. -/
def AdvanceIssued (m : Manager) (sub : String) (state : AdvanceOutcome) (tag : String) : Prop :=
  ∃ header events response, (Builds.advance sub).Path events (.ok state) ∧
    (syncHandler m sub header).Path events (.ok response) ∧ response.etag = tag

/-- A tag as a client sends it back: weak or not, with spaces around its parts. -/
structure Sent (State : Type) where
  state : State
  tag : String
  weak : Bool
  before : Nat
  inside : Nat
  after : Nat

def spaces (n : Nat) : String := String.ofList (List.replicate n ' ')

def Sent.text {State : Type} (s : Sent State) : String :=
  spaces s.before ++ ((if s.weak then "W/" ++ spaces s.inside else "") ++ s.tag) ++ spaces s.after

/-- The header that lists the tags. -/
def headerOf {State : Type} (sent : List (Sent State)) : String :=
  String.intercalate "," (sent.map Sent.text)

/-- A tag stands for one state of one endpoint. -/
structure EtagsExact (m : Manager) : Prop where
  status : ∀ sub (sent : List (Sent Coverage)), (∀ s ∈ sent, StatusIssued m sub s.state s.tag) →
    ∀ events now response, (readCoverage sub).Path events (.ok now) →
      (statusHandler m sub (some (headerOf sent))).Path events (.ok response) →
        (response.isNotModified = true ↔ ∃ s ∈ sent, s.state = now)
  sync : ∀ sub (sent : List (Sent AdvanceOutcome)),
    (∀ s ∈ sent, AdvanceIssued m sub s.state s.tag) →
    ∀ events now response, (Builds.advance sub).Path events (.ok now) →
      (syncHandler m sub (some (headerOf sent))).Path events (.ok response) →
        (response.isNotModified = true ↔ ∃ s ∈ sent, s.state = now)
  statusNotSync : ∀ sub (sent : List (Sent Coverage)),
    (∀ s ∈ sent, StatusIssued m sub s.state s.tag) →
    ∀ sub' state tag, AdvanceIssued m sub' state tag → etagMatches (headerOf sent) tag = false
  syncNotStatus : ∀ sub (sent : List (Sent AdvanceOutcome)),
    (∀ s ∈ sent, AdvanceIssued m sub s.state s.tag) →
    ∀ sub' state tag, StatusIssued m sub' state tag → etagMatches (headerOf sent) tag = false

/-! ### The text of a tag -/

/-- Text that neither ends a tag in a list nor is refused as a header. -/
def Plain (t : String) : Prop := (t.toList.all fun c => visibleAscii c && c != ',') = true

instance (t : String) : Decidable (Plain t) := inferInstanceAs (Decidable (_ = true))

theorem Plain.append {s t : String} (hs : Plain s) (ht : Plain t) : Plain (s ++ t) := by
  unfold Plain at *
  rw [String.toList_append, List.all_append, hs, ht, Bool.and_self]

theorem plain_toString (n : Nat) : Plain (toString n) := by
  unfold Plain
  rw [List.all_eq_true]
  intro c mem
  rw [Nat.toString_eq_ofList_toDigits, String.toList_ofList] at mem
  have digit := Char.isDigit_iff_toNat.mp (Nat.isDigit_of_mem_toDigits (by decide) (by decide) mem)
  have low : 48 ≤ c.toNat := digit.1
  have high : c.toNat ≤ 57 := digit.2
  have notComma : c ≠ ',' := by
    rintro rfl
    exact absurd low (by decide)
  have visible : visibleAscii c = true := by
    simp only [visibleAscii, Bool.or_eq_true, Bool.and_eq_true, decide_eq_true_eq]
    exact .inl ⟨by omega, by omega⟩
  rw [visible, Bool.true_and, bne_iff_ne]
  exact notComma

theorem plain_spaces (n : Nat) : Plain (spaces n) := by
  unfold Plain spaces
  rw [String.toList_ofList, List.all_eq_true]
  intro c mem
  rw [List.eq_of_mem_replicate mem]
  rfl

/-- The dash never stands in a number, so it ends the first number of a tag. -/
theorem free_toString {c : Char} (other : c.isDigit = false) (n : Nat) :
    Text.Free c (toString n) := by
  intro mem
  rw [Nat.toString_eq_ofList_toDigits, String.toList_ofList] at mem
  rw [Nat.isDigit_of_mem_toDigits (by decide) (by decide) mem] at other
  cases other

theorem toString_inj {m n : Nat} (same : toString m = toString n) : m = n := by
  have digits : Nat.toDigits 10 m = Nat.toDigits 10 n := by
    rwa [Nat.toString_eq_ofList_toDigits, Nat.toString_eq_ofList_toDigits,
      String.ofList_inj] at same
  rw [← Nat.ofDigitChars_ten_toDigits (n := m), digits, Nat.ofDigitChars_ten_toDigits]

/-- A tag of two parts. -/
def quoted (left right : String) : String := "\"" ++ ("snap-" ++ (left ++ "-" ++ right)) ++ "\""

/-- The first part of a status tag. -/
def appliedText : Option Nat → String
  | some a => toString a
  | none => "none"

theorem statusEtag_eq (applied : Option Nat) (head : Nat) :
    statusEtag applied head = quoted (appliedText applied) ("h" ++ toString head) := by
  cases applied <;>
  · rw [← String.toList_inj]
    simp [statusEtag, quoted, appliedText, -Nat.toString_eq_repr]

theorem advanceEtag_eq (appliedSeq : Nat) (pending : Bool) :
    advanceEtag appliedSeq pending = quoted (toString appliedSeq) ("p" ++ toString pending.toNat) := by
  rw [← String.toList_inj]
  simp [advanceEtag, quoted, -Nat.toString_eq_repr]

theorem appliedText_free (applied : Option Nat) : Text.Free '-' (appliedText applied) := by
  cases applied with
  | none => decide
  | some a => exact free_toString (by decide) a

theorem plain_appliedText (applied : Option Nat) : Plain (appliedText applied) := by
  cases applied with
  | none => decide
  | some a => exact plain_toString a

theorem appliedText_inj {a b : Option Nat} (same : appliedText a = appliedText b) : a = b := by
  -- a number has no letters, so it is not the text of a replica that was never built
  have letters : ∀ n : Nat, toString n ≠ "none" := by
    intro n eq
    exact free_toString (c := 'n') (by decide) n (eq ▸ by decide)
  cases a <;> cases b
  · rfl
  · exact absurd same.symm (letters _)
  · exact absurd same (letters _)
  · exact congrArg some (toString_inj same)

/-- What stands between the quotes determines both parts. -/
theorem parts_inj {left left' right right' : String} (hl : Text.Free '-' left)
    (hl' : Text.Free '-' left')
    (same : "snap-" ++ (left ++ "-" ++ right) = "snap-" ++ (left' ++ "-" ++ right')) :
    left = left' ∧ right = right' :=
  Text.append_sep_inj hl hl' (String.append_right_inj _ |>.mp same)

/-! ### Reading a tag back -/

theorem trim_spaces (k l : Nat) {t : String}
    (first : ∃ c cs, t.toList = c :: cs ∧ Text.isWhitespace c = false)
    (last : ∃ c cs, t.toList = cs ++ [c] ∧ Text.isWhitespace c = false) :
    Text.trim (spaces k ++ t ++ spaces l) = t := by
  have white : ∀ n, (spaces n).toList.all Text.isWhitespace = true := by
    intro n
    rw [spaces, String.toList_ofList, List.all_replicate]
    split <;> rfl
  exact Text.trim_append (white k) (white l) first last

theorem quoted_first (left right : String) :
    ∃ c cs, (quoted left right).toList = c :: cs ∧ Text.isWhitespace c = false :=
  ⟨'"', ("snap-" ++ (left ++ "-" ++ right) ++ "\"").toList, by simp [quoted], by decide⟩

theorem quoted_last (left right pre : String) :
    ∃ c cs, (pre ++ quoted left right).toList = cs ++ [c] ∧ Text.isWhitespace c = false :=
  ⟨'"', (pre ++ ("\"" ++ ("snap-" ++ (left ++ "-" ++ right)))).toList, by simp [quoted], by decide⟩

/-- However a client dresses a tag, the text between the quotes is compared. -/
theorem normalizeEtag_text {State : Type} {s : Sent State} {left right : String}
    (tagged : s.tag = quoted left right) :
    normalizeEtag s.text = "snap-" ++ (left ++ "-" ++ right) := by
  have bare : Text.trim (quoted left right) = quoted left right := by
    have trimmed := trim_spaces 0 0 (quoted_first left right) (quoted_last left right "")
    simpa [spaces] using trimmed
  have opened : Text.stripStart "\"" (quoted left right) =
      some ("snap-" ++ (left ++ "-" ++ right) ++ "\"") :=
    Text.stripStart_iff.mpr (by rw [quoted, String.append_assoc])
  have unquoted : ((Text.stripStart "\"" (quoted left right)).bind (Text.stripEnd "\"")).getD
      (quoted left right) = "snap-" ++ (left ++ "-" ++ right) := by
    rw [opened, Option.bind_some, Text.stripEnd_append, Option.getD_some]
  unfold normalizeEtag
  dsimp only
  -- a weak tag loses its prefix first; under a strong one the prefix is not found
  cases weak : s.weak with
  | true =>
    have whole : Text.trim s.text = "W/" ++ (spaces s.inside ++ quoted left right) := by
      have dressed : "W/" ++ spaces s.inside ++ quoted left right =
          "W/" ++ (spaces s.inside ++ quoted left right) := String.append_assoc
      rw [Sent.text, weak, if_pos rfl, tagged, ← dressed]
      refine trim_spaces _ _ ⟨'W', ("/" ++ spaces s.inside ++ quoted left right).toList, ?_, ?_⟩
        (quoted_last _ _ _)
      · simp
      · decide
    have inner : Text.trim (spaces s.inside ++ quoted left right) = quoted left right := by
      have trimmed := trim_spaces s.inside 0 (quoted_first left right) (quoted_last left right "")
      simpa [spaces] using trimmed
    rw [whole, Text.stripStart_iff.mpr rfl, Option.getD_some, inner]
    exact unquoted
  | false =>
    have whole : Text.trim s.text = quoted left right := by
      rw [Sent.text, weak, if_neg Bool.false_ne_true, tagged, String.empty_append]
      exact trim_spaces _ _ (quoted_first left right) (quoted_last left right "")
    have strong : Text.stripStart "W/" (quoted left right) = none := by
      cases found : Text.stripStart "W/" (quoted left right) with
      | none => rfl
      | some t =>
        have same := congrArg String.toList (Text.stripStart_iff.mp found)
        simp [quoted] at same
    rw [whole, strong, Option.getD_none, bare]
    exact unquoted

/-- A bare tag is one that nobody dressed. -/
theorem normalizeEtag_quoted (left right : String) :
    normalizeEtag (quoted left right) = "snap-" ++ (left ++ "-" ++ right) := by
  have bare : (Sent.mk () (quoted left right) false 0 0 0).text = quoted left right := by
    simp [Sent.text, spaces]
  rw [← bare]
  exact normalizeEtag_text rfl

/-! ### A header of tags -/

/-- Every tag of the list has the form that the server writes. -/
def Genuine {State : Type} (left right : State → String) (sent : List (Sent State)) : Prop :=
  ∀ s ∈ sent, s.tag = quoted (left s.state) (right s.state) ∧ Plain (left s.state) ∧
    Plain (right s.state)

section Header

variable {State : Type} {left right : State → String} {sent : List (Sent State)}

theorem Genuine.plain (genuine : Genuine left right sent) {s : Sent State} (mem : s ∈ sent) :
    Plain s.text := by
  obtain ⟨tagged, hl, hr⟩ := genuine s mem
  have quotes : Plain (quoted (left s.state) (right s.state)) :=
    (Plain.append (by decide) (Plain.append (by decide)
      ((hl.append (by decide)).append hr))).append (by decide)
  rw [Sent.text, tagged]
  refine ((plain_spaces _).append (Plain.append ?_ quotes)).append (plain_spaces _)
  split
  · exact Plain.append (by decide) (plain_spaces _)
  · decide

theorem Genuine.toStr (genuine : Genuine left right sent) :
    toStr (headerOf sent) = some (headerOf sent) := by
  refine if_pos (Text.all_intercalate (by decide) fun part mem => ?_)
  obtain ⟨s, listed, rfl⟩ := List.mem_map.mp mem
  have plain := genuine.plain listed
  unfold Plain at plain
  rw [List.all_eq_true] at plain ⊢
  exact fun c here => (Bool.and_eq_true_iff.mp (plain c here)).1

theorem Genuine.split (genuine : Genuine left right sent) (some_ : sent ≠ []) :
    Text.split ',' (headerOf sent) = sent.map Sent.text := by
  refine Text.split_intercalate (by simpa using some_) fun part mem => ?_
  obtain ⟨s, listed, rfl⟩ := List.mem_map.mp mem
  intro comma
  have plain := genuine.plain listed
  unfold Plain at plain
  rw [List.all_eq_true] at plain
  exact absurd (plain ',' comma) (by decide)

/-- A list of tags is not the wildcard. -/
theorem Genuine.not_wildcard (genuine : Genuine left right sent) :
    Text.trim (headerOf sent) ≠ "*" := by
  intro wildcard
  cases sent with
  | nil =>
    have empty : Text.trim "" ≠ "*" := by decide
    exact empty wildcard
  | cons s rest =>
    have quote : '"' ∈ s.text.toList := by
      rw [Sent.text, (genuine s List.mem_cons_self).1]
      simp [quoted]
    have here : '"' ∈ (headerOf (s :: rest)).toList := by
      cases rest with
      | nil => simpa [headerOf] using quote
      | cons next rest =>
        rw [headerOf, List.map_cons, List.map_cons, String.intercalate_cons_cons]
        simp [quote]
    have kept := Text.mem_trim here (by decide)
    rw [wildcard] at kept
    exact absurd kept (by decide)

/-- The header matches a tag that it lists, and no other. -/
theorem Genuine.etagMatches_iff (genuine : Genuine left right sent) (l r : String) :
    etagMatches (headerOf sent) (quoted l r) = true ↔
      ∃ s ∈ sent, "snap-" ++ (left s.state ++ "-" ++ right s.state) =
        "snap-" ++ (l ++ "-" ++ r) := by
  rw [etagMatches, if_neg genuine.not_wildcard, normalizeEtag_quoted]
  by_cases none : sent = []
  · subst none
    have other : "" ≠ "snap-" ++ (l ++ "-" ++ r) := fun same => by
      simpa using congrArg String.toList same
    have empty : Text.split ',' "" = [""] := Text.split_of_free (by decide)
    have blank : normalizeEtag "" = "" := by decide
    simp [headerOf, empty, blank, other]
  · rw [genuine.split none, List.any_map, List.any_eq_true]
    constructor
    · rintro ⟨s, mem, same⟩
      refine ⟨s, mem, ?_⟩
      rw [← normalizeEtag_text (genuine s mem).1]
      simpa using same
    · rintro ⟨s, mem, same⟩
      refine ⟨s, mem, ?_⟩
      rw [Function.comp_apply, normalizeEtag_text (genuine s mem).1, same, decide_eq_true_eq]

end Header

/-! ### Tags and states -/

theorem answer_etag {Body : Type} (ifNoneMatch : Option String) (etag : String) (body : Body) :
    (answer ifNoneMatch etag body).etag = etag := by
  unfold answer
  split <;> rfl

theorem answer_isNotModified {Body : Type} {header : String} (text : toStr header = some header)
    (etag : String) (body : Body) :
    (answer (some header) etag body).isNotModified = etagMatches header etag := by
  unfold answer
  rw [Option.bind_some, text, Option.any_some]
  cases etagMatches header etag <;> rfl

section Issued

variable {m : Manager} {sub : String}

theorem StatusIssued.tag_eq {state : Coverage} {tag : String} (issued : StatusIssued m sub state tag) :
    tag = quoted (appliedText state.applied) ("h" ++ toString state.head) := by
  obtain ⟨header, events, response, reads, path, rfl⟩ := issued
  obtain ⟨now, reads', rfl⟩ := Prog.path_bind_pure.mp path
  obtain rfl : state = now := Except.ok.inj (reads.det reads')
  rw [answer_etag, statusEtag_eq]

theorem AdvanceIssued.tag_eq {state : AdvanceOutcome} {tag : String}
    (issued : AdvanceIssued m sub state tag) :
    tag = quoted (toString state.appliedSeq) ("p" ++ toString state.pending.toNat) := by
  obtain ⟨header, events, response, advanced, path, rfl⟩ := issued
  obtain ⟨now, advanced', rfl⟩ := Prog.path_bind_pure.mp path
  obtain rfl : state = now := Except.ok.inj (advanced.det advanced')
  rw [answer_etag, advanceEtag_eq]

theorem status_genuine {sent : List (Sent Coverage)}
    (issued : ∀ s ∈ sent, StatusIssued m sub s.state s.tag) :
    Genuine (fun state => appliedText state.applied) (fun state => "h" ++ toString state.head)
      sent :=
  fun s mem => ⟨(issued s mem).tag_eq, plain_appliedText _,
    Plain.append (by decide) (plain_toString _)⟩

theorem advance_genuine {sent : List (Sent AdvanceOutcome)}
    (issued : ∀ s ∈ sent, AdvanceIssued m sub s.state s.tag) :
    Genuine (fun state => toString state.appliedSeq)
      (fun state => "p" ++ toString state.pending.toNat) sent :=
  fun s mem => ⟨(issued s mem).tag_eq, plain_toString _, Plain.append (by decide) (plain_toString _)⟩

theorem coverage_inj {a b : Coverage}
    (same : "snap-" ++ (appliedText a.applied ++ "-" ++ ("h" ++ toString a.head)) =
      "snap-" ++ (appliedText b.applied ++ "-" ++ ("h" ++ toString b.head))) : a = b := by
  obtain ⟨applied, head⟩ := parts_inj (appliedText_free _) (appliedText_free _) same
  have applied := appliedText_inj applied
  have head := toString_inj ((String.append_right_inj _).mp head)
  cases a
  cases b
  cases applied
  cases head
  rfl

theorem outcome_inj {a b : AdvanceOutcome}
    (same : "snap-" ++ (toString a.appliedSeq ++ "-" ++ ("p" ++ toString a.pending.toNat)) =
      "snap-" ++ (toString b.appliedSeq ++ "-" ++ ("p" ++ toString b.pending.toNat))) : a = b := by
  have free (n : Nat) : Text.Free '-' (toString n) := free_toString (by decide) n
  obtain ⟨seq, pending⟩ := parts_inj (free _) (free _) same
  have seq := toString_inj seq
  have bits := toString_inj ((String.append_right_inj _).mp pending)
  have pending : a.pending = b.pending := by
    revert bits
    cases a.pending <;> cases b.pending <;> decide
  cases a
  cases b
  cases seq
  cases pending
  rfl

/-- The second parts begin with different letters. -/
theorem coverage_ne_outcome (a : Coverage) (b : AdvanceOutcome) :
    "snap-" ++ (appliedText a.applied ++ "-" ++ ("h" ++ toString a.head)) ≠
      "snap-" ++ (toString b.appliedSeq ++ "-" ++ ("p" ++ toString b.pending.toNat)) := by
  intro same
  have second := (parts_inj (appliedText_free _) (free_toString (by decide) _) same).2
  have letters := congrArg (fun t : String => t.toList.head?) second
  simp at letters

end Issued

theorem etags_exact (m : Manager) : EtagsExact m where
  status := by
    intro sub sent issued events now response reads path
    -- what the client holds are tags that this manager issued, so the comparison is exact
    have genuine := status_genuine issued
    obtain ⟨now', reads', rfl⟩ := Prog.path_bind_pure.mp path
    obtain rfl : now = now' := Except.ok.inj (reads.det reads')
    rw [answer_isNotModified genuine.toStr, statusEtag_eq, genuine.etagMatches_iff]
    constructor
    · rintro ⟨s, mem, same⟩
      exact ⟨s, mem, coverage_inj same⟩
    · rintro ⟨s, mem, rfl⟩
      exact ⟨s, mem, rfl⟩
  sync := by
    intro sub sent issued events now response advanced path
    have genuine := advance_genuine issued
    obtain ⟨now', advanced', rfl⟩ := Prog.path_bind_pure.mp path
    obtain rfl : now = now' := Except.ok.inj (advanced.det advanced')
    rw [answer_isNotModified genuine.toStr, advanceEtag_eq, genuine.etagMatches_iff]
    constructor
    · rintro ⟨s, mem, same⟩
      exact ⟨s, mem, outcome_inj same⟩
    · rintro ⟨s, mem, rfl⟩
      exact ⟨s, mem, rfl⟩
  statusNotSync := by
    intro sub sent issued sub' state tag other
    rw [other.tag_eq, Bool.eq_false_iff, ne_eq, (status_genuine issued).etagMatches_iff]
    rintro ⟨s, -, same⟩
    exact coverage_ne_outcome s.state state same
  syncNotStatus := by
    intro sub sent issued sub' state tag other
    rw [other.tag_eq, Bool.eq_false_iff, ne_eq, (advance_genuine issued).etagMatches_iff]
    rintro ⟨s, -, same⟩
    exact coverage_ne_outcome state s.state same.symm

/-- The reads of a status request of `alice` that finds this state. -/
def coverageReads (state : Coverage) : List ((c : Call) × Except Error c.Ans) :=
  [⟨.wal .head, .ok state.head⟩,
    ⟨.fs (.replica "alice") (.getBytes Snapshot.appliedKey), .ok (state.applied.map Value.applied)⟩]

theorem path_coverage (state : Coverage) :
    (readCoverage "alice").Path (coverageReads state) (.ok state) := by
  obtain ⟨applied, head⟩ := state
  cases applied <;> exact .call (.call (.ret _))

theorem path_status (m : Manager) (header : Option String) (state : Coverage) :
    (statusHandler m "alice" header).Path (coverageReads state)
      (.ok (answer header (statusEtag state.applied state.head)
        ⟨m.userPrefix "alice", state.applied, state.head⟩)) :=
  Prog.path_bind_pure.mpr ⟨state, path_coverage state, rfl⟩

/-- A client lists two tags that it was given, one of them as weak. -/
def listedTags : List (Sent Coverage) :=
  [⟨⟨none, 7⟩, statusEtag none 7, true, 1, 1, 0⟩, ⟨⟨some 3, 7⟩, statusEtag (some 3) 7, false, 1, 0, 2⟩]

/-- The state of the second tag is not sent again, a later one is. -/
theorem etags_exact_listed : ∃ same later,
    (statusHandler ⟨"sync", fun _ => []⟩ "alice" (some (headerOf listedTags))).Path
      (coverageReads ⟨some 3, 7⟩) (.ok same) ∧ same.isNotModified = true ∧
    (statusHandler ⟨"sync", fun _ => []⟩ "alice" (some (headerOf listedTags))).Path
      (coverageReads ⟨some 4, 7⟩) (.ok later) ∧ later.isNotModified = false := by
  have issued : ∀ s ∈ listedTags, StatusIssued ⟨"sync", fun _ => []⟩ "alice" s.state s.tag := by
    have given (state : Coverage) : StatusIssued ⟨"sync", fun _ => []⟩ "alice" state
        (statusEtag state.applied state.head) :=
      ⟨none, _, _, path_coverage state, path_status _ none state, rfl⟩
    intro s mem
    simp only [listedTags, List.mem_cons, List.not_mem_nil, or_false] at mem
    rcases mem with rfl | rfl
    · exact given _
    · exact given _
  have exact_ := (etags_exact ⟨"sync", fun _ => []⟩).status "alice" listedTags issued
  refine ⟨_, _, path_status _ _ _, (exact_ _ _ _ (path_coverage _) (path_status _ _ _)).mpr ?_,
    path_status _ _ _, Bool.eq_false_iff.mpr fun bad => ?_⟩
  · exact ⟨_, List.mem_cons_of_mem _ (List.mem_singleton_self _), rfl⟩
  · obtain ⟨s, mem, same⟩ := (exact_ _ _ _ (path_coverage _) (path_status _ _ _)).mp bad
    simp only [listedTags, List.mem_cons, List.not_mem_nil, or_false] at mem
    rcases mem with rfl | rfl
    · exact absurd same (by decide)
    · exact absurd same (by decide)

end RustApi.Sync
