import RustApi.Lib.Kv

/-!
# The paged key walk

`KvPages` walks an ordered store one page at a time and resumes at the last key
it has seen. The walk is written over any monad, because the replica rebuild
drives it over the master, over the live replica and over its own scratch store.

## Main results

- `KvPages.next_static`: over a store that does not change, the walk yields the entries of
  the store one by one in key order and then ends.
- `PagedWalk.paged_walk`: over a store that others write between the fetches, the walk stays
  in key order, skips nothing that is there all the time and returns nothing twice.
-/

namespace RustApi

open Lib

/-- `SCAN_PAGE`. -/
def scanPage : Nat := 512

/-- The state of a walk: the inclusive resume point, the rest of the page at hand,
    and whether a fetch has found the end. -/
structure KvPages (V : Type) where
  cursor : Option String
  buffer : List (String × V)
  exhausted : Bool
  deriving DecidableEq

namespace KvPages

variable {V : Type}

/-- `KvPages::new`. -/
def new : KvPages V := ⟨none, [], false⟩

/-- A resumed page starts with the resume key, which was yielded before. -/
def dropResume (cursor : Option String) (page : List (String × V)) : List (String × V) :=
  match cursor, page with
  | some resume, e :: rest => if e.1 = resume then rest else e :: rest
  | _, page => page

/-- What `next` does with a page it fetched. -/
def accept (p : KvPages V) (page : List (String × V)) : Option (String × V) × KvPages V :=
  match dropResume p.cursor page with
  -- only the resume key came back, or nothing: the end
  | [] => (none, { p with exhausted := true })
  -- the first entry is returned, the others are kept for the next calls
  | e :: rest => (some e, ⟨some ((e :: rest).getLast (List.cons_ne_nil _ _)).1, rest, false⟩)

/-- `KvPages::next`; `fetch` is `gets_bytes` with the limit `SCAN_PAGE`. -/
def next {m : Type → Type} [Monad m] (fetch : Option String → m (List (String × V)))
    (p : KvPages V) : m (Option (String × V) × KvPages V) :=
  match p.buffer with
  | e :: rest => pure (some e, { p with buffer := rest })
  | [] =>
    if p.exhausted then pure (none, p)
    else do
      let page ← fetch p.cursor
      pure (p.accept page)

/-- The fetch of a walk over one store. -/
def fetchFrom (kv : Kv V) (cursor : Option String) : List (String × V) :=
  kv.getsBytes (some scanPage) cursor none

/-- One step of the walk over a store that nobody else writes. -/
def nextIn (kv : Kv V) (p : KvPages V) : Option (String × V) × KvPages V :=
  next (m := Id) (fetchFrom kv) p

/-! ### What is left of a walk -/

/-- The entries after the resume point. -/
def rest (cursor : Option String) (l : List (String × V)) : List (String × V) :=
  l.filter fun e => decide (∀ c ∈ cursor, c < e.1)

/-- The entries a walk over `kv` still has to yield. -/
def left (kv : Kv V) (p : KvPages V) : List (String × V) :=
  p.buffer ++ if p.exhausted then [] else rest p.cursor kv.toList

theorem mem_rest {cursor : Option String} {l : List (String × V)} {e : String × V} :
    e ∈ rest cursor l ↔ e ∈ l ∧ ∀ c ∈ cursor, c < e.1 := by
  simp only [rest, List.mem_filter, decide_eq_true_eq]

@[simp] theorem left_new (kv : Kv V) : left kv new = kv.toList := by
  simp [left, new, rest]

private abbrev Sorted (l : List (String × V)) : Prop := l.Pairwise fun a b => a.1 < b.1

private theorem before_last {keys : List String} (sorted : keys.Pairwise (· < ·)) {last : String}
    (reached : keys.getLast? = some last) : ∀ key ∈ keys, key ≤ last := by
  obtain ⟨before, rfl⟩ := List.getLast?_eq_some_iff.mp reached
  intro key mem
  rcases List.mem_append.mp mem with old | new
  · exact ((List.pairwise_append.mp sorted).2.2 key old last List.mem_cons_self).le
  · exact (List.mem_singleton.mp new).le

/-- Behind the last key of a page comes exactly what the page left out. -/
private theorem rest_last {page tail : List (String × V)} (sorted : Sorted (page ++ tail))
    (nonempty : page ≠ []) : rest (some (page.getLast nonempty).1) (page ++ tail) = tail := by
  have before : ∀ a ∈ page, ¬ (page.getLast nonempty).1 < a.1 := by
    have pages : (page.map (·.1)).Pairwise (· < ·) :=
      List.pairwise_map.mpr (List.pairwise_append.mp sorted).1
    have reached : (page.map (·.1)).getLast? = some (page.getLast nonempty).1 := by
      rw [List.getLast?_map, List.getLast?_eq_some_getLast nonempty, Option.map_some]
    exact fun a ha => (before_last pages reached a.1 (List.mem_map_of_mem ha)).not_gt
  have after : ∀ a ∈ tail, (page.getLast nonempty).1 < a.1 := fun a ha =>
    (List.pairwise_append.mp sorted).2.2 _ (List.getLast_mem nonempty) a ha
  -- the filter drops the whole page and keeps the whole tail
  rw [rest, List.filter_append, List.filter_eq_nil_iff.mpr, List.filter_eq_self.mpr,
    List.nil_append]
  · simpa only [Option.mem_some_iff, forall_eq', decide_eq_true_eq] using after
  · simpa only [Option.mem_some_iff, forall_eq', decide_eq_true_eq] using before

/-- A later resume point only cuts more off. -/
private theorem rest_rest {c : Option String} {d : String} (later : ∀ b ∈ c, b < d)
    (l : List (String × V)) : rest (some d) (rest c l) = rest (some d) l := by
  rw [rest, rest, rest, List.filter_filter]
  apply List.filter_congr
  intro e _
  rw [← Bool.decide_and, decide_eq_decide]
  exact ⟨fun h => h.1, fun h => ⟨h, fun b hb => (later b hb).trans (h d rfl)⟩⟩

private theorem filter_ge_eq_gt {l : List (String × V)} {c : String}
    (above : ∀ e ∈ l, c < e.1) : l.filter (fun e => decide (c ≤ e.1)) = rest (some c) l := by
  apply List.filter_congr
  intro e he
  simp only [Option.mem_some_iff, forall_eq', decide_eq_decide]
  exact ⟨fun _ => above e he, fun _ => (above e he).le⟩

/-- An inclusive scan is the entries after the resume point, behind the resume key. -/
private theorem filter_ge {l : List (String × V)} (sorted : Sorted l) (c : String) :
    l.filter (fun e => decide (c ≤ e.1)) = rest (some c) l ∨
      ∃ e, e.1 = c ∧ l.filter (fun e => decide (c ≤ e.1)) = e :: rest (some c) l := by
  -- the scan starts at the first key that is not before `c`
  induction l with
  | nil => exact .inl rfl
  | cons e l ih =>
    obtain ⟨above, tail⟩ := List.pairwise_cons.mp sorted
    rcases lt_trichotomy e.1 c with before | same | behind
    · rw [rest, List.filter_cons_of_neg (by simpa only [decide_eq_true_eq] using before.not_ge),
        List.filter_cons_of_neg (by
          simpa only [Option.mem_some_iff, forall_eq', decide_eq_true_eq] using before.not_gt)]
      exact ih tail
    · refine .inr ⟨e, same, ?_⟩
      rw [rest, List.filter_cons_of_pos (by simpa only [decide_eq_true_eq] using same.ge),
        List.filter_cons_of_neg (by
          simpa only [Option.mem_some_iff, forall_eq', decide_eq_true_eq] using same.le.not_gt)]
      exact congrArg (e :: ·) (filter_ge_eq_gt fun a ha => same ▸ above a ha)
    · refine .inl (filter_ge_eq_gt ?_)
      intro a ha
      rcases List.mem_cons.mp ha with rfl | later
      · exact behind
      · exact behind.trans (above a later)

/-- A page of two entries or more, less the resume key, is a non-trivial start of what is
    left. A page of one entry could hold the resume key alone. -/
private theorem page_eq_take (kv : Kv V) (page : Nat) (cursor : Option String) :
    ∃ n, dropResume cursor (kv.getsBytes (some (page + 2)) cursor none) =
      (rest cursor kv.toList).take (n + 1) := by
  cases cursor with
  -- the first page has no resume key
  | none =>
    refine ⟨page + 1, ?_⟩
    simp [dropResume, Kv.getsBytes, rest]
  | some c =>
    have scan : kv.getsBytes (some (page + 2)) (some c) none =
        (kv.toList.filter fun e => decide (c ≤ e.1)).take (page + 2) := by
      simp [Kv.getsBytes]
    rcases filter_ge (Kv.toList_sorted kv) c with plain | ⟨e, same, resumed⟩
    · refine ⟨page + 1, ?_⟩
      rw [scan, plain]
      cases h : rest (some c) kv.toList with
      | nil => simp [dropResume]
      | cons a l =>
        have after : c < a.1 := (mem_rest.mp (h ▸ List.mem_cons_self)).2 c rfl
        simp [dropResume, after.ne']
    · -- the resume key is still there and takes one place of the page
      refine ⟨page, ?_⟩
      rw [scan, resumed]
      simp [dropResume, same]

/-- What a fetched page does to the walk: it ends when nothing is left, and otherwise the page
    starts with the next entry and the new resume point is behind the page. -/
private theorem accept_page (kv : Kv V) (page : Nat) (p : KvPages V) :
    (rest p.cursor kv.toList = [] ∧
      p.accept (kv.getsBytes (some (page + 2)) p.cursor none) = (none, { p with exhausted := true })) ∨
    ∃ e more last behind, rest p.cursor kv.toList = e :: more ++ behind ∧
      p.accept (kv.getsBytes (some (page + 2)) p.cursor none) =
        (some e, ⟨some last, more, false⟩) ∧
      ((e :: more).map (·.1)).getLast? = some last ∧ rest (some last) kv.toList = behind := by
  obtain ⟨n, fetched⟩ := page_eq_take kv page p.cursor
  unfold accept
  rw [fetched]
  cases h : rest p.cursor kv.toList with
  | nil => exact .inl ⟨rfl, rfl⟩
  | cons e l =>
    right
    have sorted : Sorted (e :: l.take n ++ l.drop n) := by
      rw [List.cons_append, List.take_append_drop, ← h]
      exact (Kv.toList_sorted kv).filter _
    -- the resume point moves to the last entry of the page, which was ahead too
    have last_mem := List.getLast_mem (List.cons_ne_nil e (l.take n))
    have later : ∀ c ∈ p.cursor, c < ((e :: l.take n).getLast (List.cons_ne_nil _ _)).1 :=
      (mem_rest.mp (h ▸ List.take_subset (n + 1) (e :: l) last_mem)).2
    have behind := rest_last sorted (List.cons_ne_nil _ _)
    rw [List.cons_append, List.take_append_drop, ← h, rest_rest later] at behind
    refine ⟨e, l.take n, _, l.drop n, ?_, rfl, ?_, behind⟩
    · rw [List.cons_append, List.take_append_drop]
    · rw [List.getLast?_map, List.getLast?_eq_some_getLast (List.cons_ne_nil _ _), Option.map_some]

/-- **The walk over a fixed store** yields the first entry that is left and leaves the
    others; when nothing is left it says so and stays at the end. -/
theorem next_static (kv : Kv V) (p : KvPages V) :
    (nextIn kv p).1 = (left kv p).head? ∧ left kv (nextIn kv p).2 = (left kv p).tail := by
  obtain ⟨cursor, buffer, exhausted⟩ := p
  cases buffer with
  | cons e more => exact ⟨rfl, rfl⟩
  | nil =>
    cases exhausted with
    | true => exact ⟨rfl, rfl⟩
    | false =>
      have step : nextIn kv ⟨cursor, [], false⟩ = accept ⟨cursor, [], false⟩
          (kv.getsBytes (some (510 + 2)) cursor none) := rfl
      rw [step]
      rcases accept_page kv 510 ⟨cursor, [], false⟩ with
        ⟨none, accepted⟩ | ⟨e, more, last, behind, ahead, accepted, -, resumed⟩
      · rw [accepted]
        simp_all [left]
      · rw [accepted]
        simp_all [left]

end KvPages

/-! ### A store that others write -/

/-- What happens while a walk is under way: somebody else writes the store, or the walk is
    asked for its next entry, and the fetch of a page may fail. -/
inductive WalkEvent (V : Type) where
  | insert (key : String) (value : V)
  | delete (key : String)
  | next (up : Bool)

/-- A walk under way. Each entry that `next` returned stands with the store its page was
    fetched from, and `fetched` is the store of the last fetch. -/
structure PagedWalk (V : Type) where
  kv : Kv V
  pages : KvPages V
  fetched : Kv V
  yielded : List ((String × V) × Kv V)
  ended : Bool

namespace PagedWalk

variable {V : Type}

def start (kv : Kv V) : PagedWalk V := ⟨kv, .new, kv, [], false⟩

/-- `gets_bytes` with this limit, remembering the store that it reads. -/
def fetchPage (page : Nat) (kv : Kv V) (up : Bool) (cursor : Option String) :
    StateT (Kv V) Option (List (String × V)) := fun _ =>
  if up then some (kv.getsBytes (some page) cursor none, kv) else none

/-- What an answer of `next` adds to the walk. -/
def answered (w : PagedWalk V) (fetched : Kv V) : Option (String × V) × KvPages V → PagedWalk V
  | (some e, pages) => ⟨w.kv, pages, fetched, w.yielded ++ [(e, fetched)], w.ended⟩
  | (none, pages) => ⟨w.kv, pages, fetched, w.yielded, true⟩

def step (page : Nat) (w : PagedWalk V) : WalkEvent V → PagedWalk V
  | .insert key value => { w with kv := w.kv.insert key value }
  | .delete key => { w with kv := w.kv.erase key }
  | .next up =>
    match (KvPages.next (fetchPage page w.kv up) w.pages).run w.fetched with
    -- the error of a fetch is returned before the walk has changed
    | none => w
    | some (answer, fetched) => w.answered fetched answer

def run (page : Nat) (kv : Kv V) (events : List (WalkEvent V)) : PagedWalk V :=
  events.foldl (step page) (start kv)

/-- The keys that were returned, in the order in which they were. -/
def keys (w : PagedWalk V) : List String := w.yielded.map (·.1.1)

/-- The keys that were returned, and behind them those of the page at hand. -/
def seen (w : PagedWalk V) : List String := w.keys ++ w.pages.buffer.map (·.1)

/-- What one call of `next` does. -/
inductive Nexts (w : PagedWalk V) : PagedWalk V → Prop where
  | failed : Nexts w w
  | buffered {e more} (held : w.pages.buffer = e :: more) :
      Nexts w { w with
        pages := { w.pages with buffer := more }, yielded := w.yielded ++ [(e, w.fetched)] }
  | again (held : w.pages.buffer = []) (done : w.pages.exhausted = true) :
      Nexts w { w with ended := true }
  | fetched {e more last behind} (held : w.pages.buffer = []) (running : w.pages.exhausted = false)
      (ahead : KvPages.rest w.pages.cursor w.kv.toList = e :: more ++ behind)
      (reached : ((e :: more).map (·.1)).getLast? = some last)
      (resumed : KvPages.rest (some last) w.kv.toList = behind) :
      Nexts w { w with
        pages := ⟨some last, more, false⟩, fetched := w.kv, yielded := w.yielded ++ [(e, w.kv)] }
  | ended (held : w.pages.buffer = []) (running : w.pages.exhausted = false)
      (nothing : KvPages.rest w.pages.cursor w.kv.toList = []) :
      Nexts w { w with
        pages := { w.pages with exhausted := true }, fetched := w.kv, ended := true }

theorem nexts {page : Nat} (two : 2 ≤ page) (w : PagedWalk V) (up : Bool) :
    Nexts w (w.step page (.next up)) := by
  obtain ⟨kv, ⟨cursor, buffer, exhausted⟩, fetched, yielded, ended⟩ := w
  obtain ⟨page, rfl⟩ : ∃ more, page = more + 2 := ⟨page - 2, by omega⟩
  cases buffer with
  | cons e more => exact .buffered rfl
  | nil =>
    cases exhausted with
    | true => exact .again rfl rfl
    | false =>
      cases up with
      | false => exact .failed
      | true =>
        have stepped : step (page + 2) ⟨kv, ⟨cursor, [], false⟩, fetched, yielded, ended⟩
            (.next true) = answered ⟨kv, ⟨cursor, [], false⟩, fetched, yielded, ended⟩ kv
              (KvPages.accept ⟨cursor, [], false⟩
                (kv.getsBytes (some (page + 2)) cursor none)) := rfl
        rw [stepped]
        rcases KvPages.accept_page kv page ⟨cursor, [], false⟩ with
          ⟨nothing, accepted⟩ | ⟨e, more, last, behind, ahead, accepted, reached, resumed⟩
        · rw [accepted]
          exact .ended rfl rfl nothing
        · rw [accepted]
          exact .fetched rfl rfl ahead reached resumed

/-! ### The invariant of a walk -/

/-- What a walk keeps to, whatever others write. -/
structure Ordered (w : PagedWalk V) : Prop where
  /-- the page at hand continues what was returned -/
  increasing : w.seen.Pairwise (· < ·)
  /-- the resume point is the last key seen -/
  resumes : w.pages.cursor = w.seen.getLast?
  held : ∀ e ∈ w.pages.buffer, w.fetched[e.1]? = some e.2
  yielded : ∀ y ∈ w.yielded, y.2[y.1.1]? = some y.1.2
  exhausted : w.pages.exhausted = w.ended
  finished : w.ended = true → w.pages.buffer = []

/-- A key that has been in the store all the time was seen or is still ahead. -/
def Tracks (key : String) (w : PagedWalk V) : Prop :=
  key ∈ w.seen ∨ w.ended = false ∧ ∀ c ∈ w.pages.cursor, c < key

theorem ordered_start (kv : Kv V) : Ordered (start kv) where
  increasing := List.Pairwise.nil
  resumes := rfl
  held := by simp [start, KvPages.new]
  yielded := by simp [start]
  exhausted := rfl
  finished := fun ended => by cases ended

theorem tracks_start (kv : Kv V) (key : String) : Tracks key (start kv) :=
  .inr ⟨rfl, by simp [start, KvPages.new]⟩

/-- An entry that `next` takes from the page at hand stays among the seen ones. -/
theorem seen_yield (w : PagedWalk V) (pages : KvPages V) (fetched : Kv V) (e : String × V) :
    seen ⟨w.kv, pages, fetched, w.yielded ++ [(e, fetched)], w.ended⟩ =
      w.keys ++ (e :: pages.buffer).map (·.1) := by
  simp [seen, keys]

theorem seen_of_empty {w : PagedWalk V} (held : w.pages.buffer = []) : w.seen = w.keys := by
  simp [seen, held]

/-- Everything ahead of the resume point is behind everything seen. -/
theorem Ordered.before {w : PagedWalk V} (ordered : Ordered w) {e : String × V}
    (ahead : e ∈ KvPages.rest w.pages.cursor w.kv.toList) : ∀ key ∈ w.seen, key < e.1 := by
  intro key mem
  obtain ⟨last, reached⟩ : ∃ last, w.seen.getLast? = some last :=
    ⟨_, List.getLast?_eq_some_getLast (List.ne_nil_of_mem mem)⟩
  have later := (KvPages.mem_rest.mp ahead).2 last (ordered.resumes.trans reached)
  exact (KvPages.before_last ordered.increasing reached key mem).trans_lt later

theorem Ordered.next {w w' : PagedWalk V} (ordered : Ordered w) (next : Nexts w w') :
    Ordered w' := by
  cases next with
  | failed => exact ordered
  | @buffered e more held =>
    -- the entry only moves from the page to the returned ones
    have seen : w.keys ++ (e :: more).map (·.1) = w.seen := by rw [PagedWalk.seen, held]
    have finished : w.ended = true → more = [] := fun ended => by
      rw [ordered.finished ended] at held
      cases held
    constructor
    · rw [seen_yield, seen]
      exact ordered.increasing
    · rw [seen_yield, seen]
      exact ordered.resumes
    · exact fun f mem => ordered.held f (held ▸ List.mem_cons_of_mem e mem)
    · intro y mem
      rcases List.mem_append.mp mem with old | new
      · exact ordered.yielded y old
      · rw [List.mem_singleton.mp new]
        exact ordered.held e (held ▸ List.mem_cons_self)
    · exact ordered.exhausted
    · exact finished
  | again held done =>
    exact ⟨ordered.increasing, ordered.resumes, ordered.held, ordered.yielded, done,
      fun _ => held⟩
  | @fetched e more last behind held running ahead reached resumed =>
    have mem_kv : ∀ f ∈ e :: more, w.kv[f.1]? = some f.2 := by
      intro f mem
      have inRest : f ∈ KvPages.rest w.pages.cursor w.kv.toList :=
        ahead ▸ List.mem_append_left behind mem
      exact Kv.mem_toList.mp (KvPages.mem_rest.mp inRest).1
    rw [ordered.exhausted] at running
    constructor
    · rw [seen_yield]
      refine List.pairwise_append.mpr ⟨seen_of_empty held ▸ ordered.increasing, ?_, ?_⟩
      · have sorted : (KvPages.rest w.pages.cursor w.kv.toList).Pairwise fun a b => a.1 < b.1 :=
          (Kv.toList_sorted w.kv).filter _
        rw [ahead] at sorted
        exact List.pairwise_map.mpr (List.pairwise_append.mp sorted).1
      · -- everything returned was before the resume point the page was fetched from
        intro key old next new
        obtain ⟨f, mem, rfl⟩ := List.mem_map.mp new
        exact ordered.before (ahead ▸ List.mem_append_left behind mem) key
          (seen_of_empty held ▸ old)
    · rw [seen_yield, List.getLast?_append, reached]
      rfl
    · exact fun f mem => mem_kv f (List.mem_cons_of_mem e mem)
    · intro y mem
      rcases List.mem_append.mp mem with old | new
      · exact ordered.yielded y old
      · rw [List.mem_singleton.mp new]
        exact mem_kv e List.mem_cons_self
    · exact running.symm
    · intro ended
      rw [running] at ended
      cases ended
  | ended held running nothing =>
    -- nothing is held at the end, so nothing has to be in the new store
    have none_held : ∀ e ∈ w.pages.buffer, w.kv[e.1]? = some e.2 := by simp [held]
    exact ⟨ordered.increasing, ordered.resumes, none_held, ordered.yielded, rfl, fun _ => held⟩

theorem Tracks.next {key : String} {w w' : PagedWalk V} (tracks : Tracks key w)
    (ordered : Ordered w) (here : key ∈ w.kv) (next : Nexts w w') : Tracks key w' := by
  obtain ⟨value, found⟩ := Kv.mem_iff_get.mp here
  have inKv : (key, value) ∈ w.kv.toList := Kv.mem_toList.mpr found
  cases next with
  | failed => exact tracks
  | @buffered e more held =>
    have seen : w.keys ++ (e :: more).map (·.1) = w.seen := by rw [PagedWalk.seen, held]
    refine tracks.imp (fun old => ?_) (fun ahead => ahead)
    rw [seen_yield, seen]
    exact old
  | again held done =>
    rcases tracks with old | ⟨running, -⟩
    · exact .inl old
    · rw [ordered.exhausted, running] at done
      cases done
  | @fetched e more last behind held running ahead reached resumed =>
    rcases tracks with old | ⟨unended, ahead'⟩
    · left
      rw [seen_yield]
      exact List.mem_append_left _ (seen_of_empty held ▸ old)
    · -- the page either takes the key in or ends before it
      have inRest := KvPages.mem_rest.mpr ⟨inKv, ahead'⟩
      rw [ahead] at inRest
      rcases List.mem_append.mp inRest with paged | later
      · left
        rw [seen_yield]
        exact List.mem_append_right _ (List.mem_map_of_mem paged)
      · right
        rw [← resumed] at later
        exact ⟨unended, (KvPages.mem_rest.mp later).2⟩
  | ended held running nothing =>
    rcases tracks with old | ⟨-, ahead⟩
    · exact .inl old
    · have inRest := KvPages.mem_rest.mpr ⟨inKv, ahead⟩
      rw [nothing] at inRest
      cases inRest

theorem Ordered.step {page : Nat} (two : 2 ≤ page) {w : PagedWalk V} (ordered : Ordered w)
    (event : WalkEvent V) : Ordered (w.step page event) := by
  cases event with
  | next up => exact ordered.next (nexts two w up)
  -- a write of somebody else does not reach what the walk holds
  | insert | delete =>
    exact ⟨ordered.increasing, ordered.resumes, ordered.held, ordered.yielded, ordered.exhausted,
      ordered.finished⟩

theorem run_concat (page : Nat) (kv : Kv V) (events : List (WalkEvent V)) (event : WalkEvent V) :
    run page kv (events ++ [event]) = (run page kv events).step page event := by
  simp [run]

theorem ordered_run {page : Nat} (two : 2 ≤ page) (kv : Kv V) (events : List (WalkEvent V)) :
    Ordered (run page kv events) := by
  induction events using List.reverseRecOn with
  | nil => exact ordered_start kv
  | append_singleton events event ih =>
    rw [run_concat]
    exact ih.step two event

/-- A key that was never missing is tracked to the end. -/
theorem tracks_run {page : Nat} (two : 2 ≤ page) (kv : Kv V) {key : String}
    (events : List (WalkEvent V)) (here : ∀ n, key ∈ (run page kv (events.take n)).kv) :
    Tracks key (run page kv events) := by
  -- on the last event; `here` is passed on to the events before it
  induction events using List.reverseRecOn with
  | nil => exact tracks_start kv key
  | append_singleton events event ih =>
    have before : ∀ n, key ∈ (run page kv (events.take n)).kv := by
      intro n
      have there := here (min n events.length)
      rwa [List.take_append_of_le_length (Nat.min_le_right _ _), ← List.take_eq_take_min] at there
    have now : key ∈ (run page kv events).kv := by
      simpa only [List.take_length] using before events.length
    rw [run_concat]
    cases event with
    | next up => exact (ih before).next (ordered_run two kv events) now (nexts two _ up)
    | insert | delete => exact ih before

/-- What a walk promises while others write the store. -/
structure Faithful (page : Nat) (kv : Kv V) (events : List (WalkEvent V)) : Prop where
  increasing : (run page kv events).keys.Pairwise (· < ·)
  once : ∀ key, (∀ n, key ∈ (run page kv (events.take n)).kv) →
    (run page kv events).ended = true → (run page kv events).keys.count key = 1
  present : ∀ y ∈ (run page kv events).yielded, y.2[y.1.1]? = some y.1.2
  ends : ∀ n, (run page kv (events.take n)).ended = false →
    (run page kv (events.take (n + 1))).ended = true →
      ∀ key ∈ (run page kv (events.take n)).kv,
        ∃ last, (run page kv (events.take n)).keys.getLast? = some last ∧ key ≤ last

/-- The fetch that ends a walk finds nothing behind the last key that was returned. -/
theorem Nexts.ends {w w' : PagedWalk V} (next : Nexts w w') (ordered : Ordered w)
    (running : w.ended = false) (ended : w'.ended = true) {key : String} (here : key ∈ w.kv) :
    ∃ last, w.keys.getLast? = some last ∧ key ≤ last := by
  cases next with
  | failed | buffered | fetched =>
    rw [running] at ended
    cases ended
  | again held done =>
    rw [ordered.exhausted, running] at done
    cases done
  | ended held unfinished nothing =>
    obtain ⟨value, found⟩ := Kv.mem_iff_get.mp here
    rw [← seen_of_empty held, ← ordered.resumes]
    -- a key behind the last one returned would be in the scan that found nothing
    by_contra behind
    push Not at behind
    have inRest := KvPages.mem_rest.mpr ⟨Kv.mem_toList.mpr found, behind⟩
    rw [nothing] at inRest
    cases inRest

/-- **The walk under writes**: with pages of two entries or more the keys come in increasing
    order, a key that is there all the time comes exactly once, nothing comes that its page did
    not hold, and the walk ends at a fetch that finds nothing more. -/
theorem paged_walk {page : Nat} (two : 2 ≤ page) (kv : Kv V) (events : List (WalkEvent V)) :
    Faithful page kv events := by
  have ordered := ordered_run two kv events
  have increasing : (run page kv events).keys.Pairwise (· < ·) :=
    (List.pairwise_append.mp ordered.increasing).1
  constructor
  · exact increasing
  · -- at the end no page is at hand, so what was seen was returned
    intro key here ended
    rcases tracks_run two kv events here with seen | ⟨running, -⟩
    · rw [seen_of_empty (ordered.finished ended)] at seen
      exact List.count_eq_one_of_mem (increasing.imp ne_of_lt) seen
    · rw [running] at ended
      cases ended
  · exact ordered.yielded
  · intro n running ended key here
    rw [List.take_add_one] at ended
    -- the walk ends at the event of this place
    cases event : events[n]? with
    | none =>
      rw [event, Option.toList_none, List.append_nil, running] at ended
      cases ended
    | some event' =>
      rw [event, Option.toList_some, run_concat] at ended
      cases event' with
      | next up =>
        exact (nexts two _ up).ends (ordered_run two kv _) running ended here
      | insert | delete =>
        rw [step, running] at ended
        cases ended

/-- Two keys to a page; one is deleted while it is the resume point, one is inserted ahead. -/
theorem paged_walk_two : Faithful 2 ((∅ : Kv Nat).insert "a" 1 |>.insert "b" 2 |>.insert "d" 4)
    [.next true, .next true, .delete "b", .insert "c" 3, .next false, .next true, .next true,
      .next true] :=
  paged_walk (by decide) _ _

example : (run 2 ((∅ : Kv Nat).insert "a" 1 |>.insert "b" 2 |>.insert "d" 4)
    [.next true, .next true, .delete "b", .insert "c" 3, .next false, .next true, .next true,
      .next true]).keys = ["a", "b", "c", "d"] := by
  decide +kernel

end PagedWalk

end RustApi
