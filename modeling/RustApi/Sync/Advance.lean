import RustApi.Sync.Builds

/-!
# What `advance` reports

A client calls `advance` until it answers `pending = false`. Every exit of `advance`
then reports the head that it sampled, but for one: after a replay that lost the fence
it reports the coverage that it reads again, and the builder that took the replica may
not have published by then.

## Main results

- `advance_honest`: when the coverage that is read again is never below the sampled
  head, `pending = false` comes with the head at the start of the call or more.
- `advance_stops_short`: a run in which it does not.
-/

namespace RustApi

open Lib

/-! ### What a call has seen -/

/-- The head that `advance` sampled, whether it gave its claim back, and the coverage that
    it read after that. -/
structure Sampled where
  head : Option Nat
  released : Bool
  covered : Option Nat
  deriving DecidableEq

/-- The coverage that a stored marker gives. -/
def coverageOf : Option Value → Option Nat
  | some (.applied seq) => some seq
  | _ => none

/-- A call that reports `pending = false` reports the head it sampled, or the coverage it
    read once its claim was gone. -/
@[reducible] def coverProtocol : Prog.Protocol BuildCall.Ans Error where
  State := Sampled
  allowed st c :=
    match c with
    | .reply out => out.pending = false → ∃ n, st.head = some n ∧
        (out.appliedSeq = n ∨ st.covered = some out.appliedSeq)
    | .base (.fs (.replica _) (.getBytes key)) => key = Snapshot.appliedKey
    | _ => True
  possible _ _ := True
  track st c r :=
    match c, r with
    | .base (.wal .head), .ok n => { st with head := some n, covered := none }
    | .release _, _ => { st with released := true }
    | .base (.fs (.replica _) (.getBytes _)), .ok v =>
      if st.released then { st with covered := coverageOf v } else st
    | _, _ => st

def BuildOp.unseen (_ : BuildOp) : Sampled := ⟨none, false, none⟩

/-- What a request or a worker has seen. -/
def sampledBy (op : BuildOp) (past : List (Event BuildCall.Ans Error)) : Sampled :=
  coverProtocol.observe op.unseen past

/-- When the coverage of `sub` is read after the claim was given back, which `advance` does
    after its replay lost the fence, the stored coverage is not below the sampled head. -/
def Adopts (s : BuildPool) (l : Label BuildCall Error BuildOp) : Prop :=
  ∀ pid sub p n seq,
    l = .call pid (.base (.fs (.replica sub) (.getBytes Snapshot.appliedKey))) none →
    s.procs pid = some p → (sampledBy p.op p.past).released = true →
    (sampledBy p.op p.past).head = some n →
    (s.world.base.replicas sub)[Snapshot.appliedKey]? = some (.applied seq) → n ≤ seq

/-! ### Conformance -/

namespace Builds

private theorem replay_returns (head : Nat) (sub : String) :
    (Snapshot.replay head sub).Returns fun r => ∀ seq, r = .ok (.advanced seq) → seq = head := by
  refine Prog.returns_bind (fun _ _ bad => nomatch bad) ?_
  rintro (_ | applied)
  · exact fun _ bad => nomatch bad
  dsimp only
  split
  · exact fun _ bad => nomatch bad
  split
  next same =>
    rintro seq ⟨⟩
    exact same
  next =>
    refine Prog.returns_bind (fun _ _ bad => nomatch bad) fun entries => ?_
    split
    · exact fun _ bad => nomatch bad
    refine Prog.returns_bind (fun _ _ bad => nomatch bad) ?_
    rintro (_ | _)
    · refine Prog.returns_bind (fun _ _ bad => nomatch bad) ?_
      rintro _ seq ⟨⟩
      rfl
    · exact fun _ bad => nomatch bad

/-- The calls of a build are not observed. -/
private theorem working_cover {α : Type} {sub : String} {st : Sampled}
    {Q : Except Error α → Prop} {post : Sampled → Except Error α → Prop} {p : M α}
    (returns : p.Returns Q) (holds : ∀ r, Q r → post st r) :
    (working sub p).Conf coverProtocol post st := by
  induction p with
  | ret r => exact holds r returns
  | call c next ih => exact ⟨trivial, fun r _ => ih r (returns r)⟩

private theorem head_cover {st : Sampled} {post : Sampled → Except Error Nat → Prop}
    (failed : ∀ e, post st (.error e))
    (read : ∀ n, post { st with head := some n, covered := none } (.ok n)) :
    (outside (onWal .head)).Conf coverProtocol post st := by
  refine ⟨trivial, ?_⟩
  rintro (e | n) -
  · exact failed e
  · exact read n

private theorem loadApplied_cover {sub : String} {st : Sampled}
    {post : Sampled → Except Error (Option Nat) → Prop} (failed : ∀ e, post st (.error e))
    (read : ∀ v, post (if st.released then { st with covered := coverageOf v } else st)
      (.ok (coverageOf v))) :
    (outside (Snapshot.loadApplied sub)).Conf coverProtocol post st := by
  refine ⟨rfl, ?_⟩
  rintro (e | v) -
  · exact failed e
  · have found := read v
    match v with
    | none => exact found
    | some (.applied seq) => exact found
    | some (.session _) => exact found
    | some (.multipart _) => exact found
    | some (.file _) => exact found
    | some (.refs _) => exact found
    | some .relation => exact found
    | some (.raw _) => exact found

/-- What the reply of a call may be. -/
private def Reports (st : Sampled) (r : Except Error AdvanceOutcome) : Prop :=
  ∀ out, r = .ok out → out.pending = false → ∃ n, st.head = some n ∧
    (out.appliedSeq = n ∨ st.covered = some out.appliedSeq)

private theorem advance_cover (sub : String) :
    (advance sub).Conf coverProtocol Reports ⟨none, false, none⟩ := by
  refine Prog.conf_bind.mpr (head_cover (fun _ _ bad => nomatch bad) fun head => ?_)
  refine Prog.conf_bind.mpr (loadApplied_cover (fun _ _ bad => nomatch bad) fun v => ?_)
  change Prog.Conf coverProtocol Reports (if coverageOf v = some head then _ else _)
    ⟨some head, false, none⟩
  split
  · rintro out ⟨⟩ -
    exact ⟨head, rfl, .inl rfl⟩
  refine Prog.conf_seq trivial (fun _ _ bad => nomatch bad) fun claimed => ?_
  -- without the claim somebody else builds, and the reply says that it is pending
  cases claimed with
  | false =>
    rintro out ⟨⟩ bad
    cases bad
  | true =>
    refine Prog.conf_bind.mpr (Prog.conf_attempt.mpr
      (working_cover (replay_returns head sub) fun r advanced => ?_))
    match r with
    | .ok (.advanced seq) =>
      refine Prog.conf_seq trivial (fun _ _ bad => nomatch bad) fun _ => ?_
      rintro out ⟨⟩ -
      exact ⟨head, rfl, .inl (advanced seq rfl)⟩
    | .ok .needsFullRebuild =>
      refine Prog.conf_seq trivial (fun _ _ bad => nomatch bad) fun sent => ?_
      refine Prog.conf_bind.mpr (loadApplied_cover (fun _ _ bad => nomatch bad) fun v => ?_)
      rintro out ⟨⟩ bad
      cases bad
    | .error e =>
      refine Prog.conf_seq trivial (fun _ _ bad => nomatch bad) fun _ => ?_
      change (if e.isFencingLoss = true then _ else Prog.fail e : BuildM _).Conf coverProtocol
        Reports ⟨some head, true, none⟩
      split
      · refine Prog.conf_bind.mpr (loadApplied_cover (fun _ _ bad => nomatch bad) fun v => ?_)
        -- a lost fence: another build moved the marker, and its coverage is adopted
        cases read : coverageOf v with
        | none => exact fun _ bad => nomatch bad
        | some seq =>
          rintro out ⟨⟩ -
          exact ⟨head, rfl, .inr rfl⟩
      · exact fun _ bad => nomatch bad

/-- A worker replies to nobody. -/
private theorem worker_cover (fuel n : Nat) (st : Sampled) :
    (worker fuel n).Conf coverProtocol (fun _ _ => True) st := by
  induction n generalizing st with
  | zero => trivial
  | succ n ih =>
    refine Prog.conf_bind.mpr ⟨trivial, ?_⟩
    rintro (e | (_ | _)) -
    · trivial
    · refine Prog.conf_bind.mpr ⟨trivial, ?_⟩
      rintro (e | (job | _ | _)) -
      · trivial
      · refine Prog.conf_bind.mpr ⟨trivial, ?_⟩
        rintro (e | (_ | _)) -
        · trivial
        · refine Prog.conf_bind.mpr (Prog.conf_attempt.mpr (working_cover
            (Prog.returns_of_forall (fun _ => trivial) _) fun r _ => ?_))
          refine Prog.conf_seq trivial (fun _ => trivial) fun _ => ?_
          exact ih _
        · exact ⟨trivial, fun _ _ => trivial⟩
      · trivial
      · exact ih _
    · trivial

end Builds

private theorem buildOp_cover (op : BuildOp) :
    op.prog.Conf coverProtocol (fun _ _ => True) op.unseen := by
  cases op with
  | advance sub =>
    refine Prog.conf_bind.mpr ((Builds.advance_cover sub).mono ?_)
    rintro st (e | out) reports
    · trivial
    · exact ⟨reports out rfl, fun _ _ => trivial⟩
  | worker fuel turns => exact Builds.worker_cover fuel turns _

/-! ### The feed only grows -/

private theorem Wal.Grows.refl (kv : Kv WalValue) : Wal.Grows kv kv := fun entries log =>
  ⟨[], by rwa [List.append_nil]⟩

private theorem append_grows (now : Int) (op : WalOp) (kv : Kv WalValue) :
    Wal.Grows kv (WalCall.exec now (.append op) kv).2 := by
  intro entries log
  obtain ⟨kv', appended, log'⟩ := log.append_eq now op
  refine ⟨[⟨entries.length + 1, op, now⟩], ?_⟩
  simp only [WalCall.exec, appended]
  exact log'

private theorem s3_wal (c : S3Call) (w : World) : (c.exec w).2.wal = w.wal := by
  cases c <;> simp only [S3Call.exec, World.fresh] <;> repeat' split
  all_goals rfl

private theorem call_grows (c : Call) (w : World) : Wal.Grows w.wal (c.exec w).2.wal := by
  cases c with
  | wal c =>
    cases c with
    | append op => exact append_grows w.clock op w.wal
    | head => exact .refl _
    | range lo hi => exact .refl _
  | s3 c =>
    rw [show (Call.exec (.s3 c) w).2.wal = w.wal from s3_wal c w]
    exact .refl _
  | fs side c =>
    cases side with
    | master => exact .refl _
    | replica sub => exact .refl _
  | policy c => exact .refl _
  | lock id => exact .refl _
  | unlock id => exact .refl _
  | now => exact .refl _
  | uuid => exact .refl _

private theorem build_grows (c : BuildCall) (w : BuildWorld) :
    Wal.Grows w.base.wal (c.exec w).2.base.wal := by
  cases c with
  | base c => exact call_grows c w.base
  | work sub c => exact call_grows c w.base
  | claim sub =>
    simp only [BuildCall.exec]
    split
    · exact .refl _
    · exact .refl _
  | dispatch sub head =>
    simp only [BuildCall.exec]
    split
    · exact .refl _
    · exact .refl _
  | recv =>
    simp only [BuildCall.exec]
    split
    · exact .refl _
    · exact .refl _
  | release sub => exact .refl _
  | isCancelled => exact .refl _
  | reply out => exact .refl _

/-! ### Whole runs -/

/-- The invariant from the start of a call on: the log is still there, whatever coverage
    was read with the claim gone reaches the sampled head, and the call `caller` has
    sampled and said nothing below the log that it started with. -/
structure Honest (entries : List WalEntry) (caller : Nat) (h : List (Label BuildCall Error BuildOp))
    (w : BuildWorld) (view : Nat → Option (BuildOp × Sampled)) : Prop where
  feed : ∃ more, Wal.Log w.base.wal (entries ++ more)
  adopted : ∀ pid op st n seq, view pid = some (op, st) → st.head = some n →
    st.covered = some seq → n ≤ seq
  sampled : ∀ op st n, view caller = some (op, st) → st.head = some n → entries.length ≤ n
  said : ∀ out, .call caller (.reply out) none ∈ h → out.pending = false →
    entries.length ≤ out.appliedSeq

section Steps

variable {entries : List WalEntry} {caller : Nat} {h : List (Label BuildCall Error BuildOp)}
  {w w' : BuildWorld} {view : Nat → Option (BuildOp × Sampled)} {pid : Nat} {op : BuildOp}
  {st st' : Sampled}

/-- A step that says nothing and after which `pid` has seen `st'`. -/
private theorem Honest.step (honest : Honest entries caller h w view)
    (grows : Wal.Grows w.base.wal w'.base.wal)
    (adopted : ∀ n seq, st'.head = some n → st'.covered = some seq → n ≤ seq)
    (sampled : pid = caller → ∀ n, st'.head = some n → entries.length ≤ n)
    {l : Label BuildCall Error BuildOp} (silent : ∀ out, l ≠ .call caller (.reply out) none) :
    Honest entries caller (h ++ [l]) w' (Function.update view pid (some (op, st'))) := by
  refine ⟨?_, ?_, ?_, ?_⟩
  · obtain ⟨more, log⟩ := honest.feed
    obtain ⟨later, log'⟩ := grows _ log
    exact ⟨more ++ later, by rwa [← List.append_assoc]⟩
  · intro q op₁ st₁ n seq found head covered
    rcases update_eq_some.mp found with ⟨-, ⟨⟩⟩ | ⟨-, found⟩
    · exact adopted n seq head covered
    · exact honest.adopted q op₁ st₁ n seq found head covered
  · intro op₁ st₁ n found head
    rcases update_eq_some.mp found with ⟨same, ⟨⟩⟩ | ⟨-, found⟩
    · exact sampled same.symm n head
    · exact honest.sampled op₁ st₁ n found head
  · intro out spoken done
    rcases List.mem_append.mp spoken with old | new
    · exact honest.said out old done
    · exact absurd (List.mem_singleton.mp new).symm (silent out)

/-- A step after which `pid` has seen nothing new. -/
private theorem Honest.quiet (honest : Honest entries caller h w view)
    (here : view pid = some (op, st)) (grows : Wal.Grows w.base.wal w'.base.wal)
    {l : Label BuildCall Error BuildOp} (silent : ∀ out, l ≠ .call caller (.reply out) none)
    (same : st'.head = st.head ∧ st'.covered = st.covered) :
    Honest entries caller (h ++ [l]) w' (Function.update view pid (some (op, st'))) := by
  refine honest.step grows ?_ ?_ silent
  · intro n seq head covered
    exact honest.adopted pid op st n seq here (same.1 ▸ head) (same.2 ▸ covered)
  · rintro rfl n head
    exact honest.sampled op st n here (same.1 ▸ head)

/-- A reply of `pid` that its past allows. -/
private theorem Honest.reply (honest : Honest entries caller h w view)
    (here : view pid = some (op, st)) {out : AdvanceOutcome}
    (allowed : out.pending = false → ∃ n, st.head = some n ∧
      (out.appliedSeq = n ∨ st.covered = some out.appliedSeq)) :
    Honest entries caller (h ++ [.call pid (.reply out) none]) w
      (Function.update view pid (some (op, st))) := by
  have base := honest.quiet here (.refl _) (l := .env) (by simp) ⟨rfl, rfl⟩
  refine ⟨base.feed, base.adopted, base.sampled, ?_⟩
  intro out' spoken done
  rcases List.mem_append.mp spoken with old | new
  · exact honest.said out' old done
  · cases List.mem_singleton.mp new
    obtain ⟨n, head, reported | adopted⟩ := allowed done
    · rw [reported]
      exact honest.sampled op st n here head
    · exact le_trans (honest.sampled op st n here head)
        (honest.adopted _ op st n _ here head adopted)

/-- A read of the coverage, which counts once the claim is gone. -/
private theorem Honest.reread {s : BuildPool} {sub : String}
    (honest : Honest entries caller h s.world (coverProtocol.view BuildOp.unseen s))
    (met : Adopts s (.call pid (.base (.fs (.replica sub) (.getBytes Snapshot.appliedKey))) none))
    (here : coverProtocol.view BuildOp.unseen s pid = some (op, st)) :
    Honest entries caller
      (h ++ [.call pid (.base (.fs (.replica sub) (.getBytes Snapshot.appliedKey))) none]) s.world
      (Function.update (coverProtocol.view BuildOp.unseen s) pid
        (some (op, if st.released = true then
          { st with covered := coverageOf (s.world.base.replicas sub)[Snapshot.appliedKey]? }
          else st))) := by
  obtain ⟨p, found, rfl, rfl⟩ := coverProtocol.view_eq_some.mp here
  split
  next released =>
    refine honest.step (.refl _) ?_ ?_ (by simp)
    · -- the read counts only once the claim is gone, and then `Adopts` bounds it from below
      intro n seq head covered
      cases stored : (s.world.base.replicas sub)[Snapshot.appliedKey]? with
      | none => simp [stored, coverageOf] at covered
      | some v =>
        cases v with
        | applied seq' =>
          simp only [stored, coverageOf, Option.some.injEq] at covered
          subst covered
          exact met pid sub p n _ rfl found released head stored
        | _ => simp [stored, coverageOf] at covered
    · rintro rfl n head
      exact honest.sampled _ _ n here head
  next => exact honest.quiet here (.refl _) (by simp) ⟨rfl, rfl⟩

end Steps

private theorem honest_call {entries : List WalEntry} {caller : Nat}
    {h : List (Label BuildCall Error BuildOp)} {s : BuildPool} {pid : Nat} {op : BuildOp}
    {st : Sampled} {c : BuildCall} (met : Adopts s (.call pid c none))
    (here : coverProtocol.view BuildOp.unseen s pid = some (op, st))
    (allowed : coverProtocol.allowed st c)
    (honest : Honest entries caller h s.world (coverProtocol.view BuildOp.unseen s)) :
    Honest entries caller (h ++ [.call pid c none]) (c.exec s.world).2
      (Function.update (coverProtocol.view BuildOp.unseen s) pid
        (some (op, coverProtocol.track st c (c.exec s.world).1))) := by
  have grows := build_grows c s.world
  cases c with
  | reply out => exact honest.reply here allowed
  | base c =>
    have silent : ∀ out, (Label.call pid (.base c) none : Label BuildCall Error BuildOp) ≠
      .call caller (.reply out) none := by simp
    cases c with
    | wal c =>
      cases c with
      | head =>
        obtain ⟨more, log⟩ := honest.feed
        have answer : (BuildCall.exec (.base (.wal .head)) s.world).1 =
            .ok (entries ++ more).length := log.head_eq
        -- the sampled head counts at least the entries that the call started from
        rw [answer]
        refine honest.step grows ?_ ?_ silent
        · intro n seq _ bad
          cases bad
        · rintro - n ⟨⟩
          simp
      | range lo hi => exact honest.quiet here grows silent ⟨rfl, rfl⟩
      | append op => exact honest.quiet here grows silent ⟨rfl, rfl⟩
    | fs side c =>
      cases side with
      | master => exact honest.quiet here grows silent ⟨rfl, rfl⟩
      | replica sub =>
        cases c with
        | getBytes key =>
          obtain rfl : key = Snapshot.appliedKey := allowed
          have unchanged : (BuildCall.exec (.base (.fs (.replica sub)
              (.getBytes Snapshot.appliedKey))) s.world).2 = s.world := by
            simp [BuildCall.exec, Call.exec, FsCall.exec]
          rw [unchanged]
          exact honest.reread met here
        | _ => exact honest.quiet here grows silent ⟨rfl, rfl⟩
    | _ => exact honest.quiet here grows silent ⟨rfl, rfl⟩
  | _ => exact honest.quiet here grows (by simp) ⟨rfl, rfl⟩

private theorem honest_preserved (entries : List WalEntry) (caller : Nat) :
    buildSystem.Preserves coverProtocol BuildOp.unseen Adopts (Honest entries caller) where
  answers _ _ := trivial
  faults _ _ _ := trivial
  spawn := by
    intro h s pid op _ _ honest
    refine honest.step (.refl _) ?_ ?_ (by simp)
    · intro n seq bad
      cases bad
    · intro _ n bad
      cases bad
  env := by
    intro h s w _ move honest
    have grows : Wal.Grows s.world.base.wal w.base.wal := by
      cases move with
      | others base feed => exact feed
      | cancel => exact .refl _
      | close => exact .refl _
    obtain ⟨more, log⟩ := honest.feed
    obtain ⟨later, log'⟩ := grows _ log
    refine ⟨⟨more ++ later, by rwa [← List.append_assoc]⟩, honest.adopted, honest.sampled, ?_⟩
    intro out spoken
    rcases List.mem_append.mp spoken with old | new
    · exact honest.said out old
    · cases List.mem_singleton.mp new
  call := fun _ _ _ _ _ _ met here allowed _ honest => honest_call met here allowed honest
  fault := by
    intro h s pid op st c e _ here _ mayFail honest
    refine honest.quiet here (.refl _) (by simp) ?_
    cases c with
    | base c =>
      cases c with
      | wal c => cases c <;> exact ⟨rfl, rfl⟩
      | fs side c =>
        cases side with
        | master => exact ⟨rfl, rfl⟩
        | replica sub => cases c <;> exact ⟨rfl, rfl⟩
      | _ => exact ⟨rfl, rfl⟩
    | _ => exact ⟨rfl, rfl⟩
  drop := by
    intro h s pid op past _ here _ honest
    -- a dropped build gives its claim back and writes nothing
    have same : (buildSystem.drop op past s.world).base = s.world.base := by
      simp only [buildSystem]
      split
      · rfl
      · rfl
    refine ⟨by rw [same]; exact honest.feed,
      fun q op₁ st₁ n seq found => honest.adopted q op₁ st₁ n seq (of_update_none found),
      fun op₁ st₁ n found => honest.sampled op₁ st₁ n (of_update_none found), ?_⟩
    intro out spoken
    rcases List.mem_append.mp spoken with old | new
    · exact honest.said out old
    · cases List.mem_singleton.mp new

/-! ### Honest reports -/

/-- Nothing has been sampled yet, so every state of a run can start a call. -/
private theorem honest_start {entries : List WalEntry} {s : BuildPool}
    {h : List (Label BuildCall Error BuildOp)} {before : List WalEntry} {other : Nat}
    (honest : Honest before other h s.world (coverProtocol.view BuildOp.unseen s))
    (log : Wal.Log s.world.base.wal entries) (caller : Nat) (op : BuildOp) :
    Honest entries caller [] s.world
      (Function.update (coverProtocol.view BuildOp.unseen s) caller (some (op, op.unseen))) := by
  refine ⟨⟨[], by rwa [List.append_nil]⟩, ?_, ?_, fun _ bad => nomatch bad⟩
  · intro q op₁ st₁ n seq found head covered
    rcases update_eq_some.mp found with ⟨-, ⟨⟩⟩ | ⟨-, found⟩
    · cases head
    · exact honest.adopted q op₁ st₁ n seq found head covered
  · intro op₁ st₁ n found head
    rcases update_eq_some.mp found with ⟨-, ⟨⟩⟩ | ⟨differs, -⟩
    · cases head
    · exact absurd rfl differs

/-- **Honest advance**. In every run in which coverage that is read after a lost fence is
    not below the head that the call sampled, a call that reports `pending = false` reports
    at least the head of the feed when the call started. -/
theorem advance_honest {base : World} {receiving : Bool} {entries : List WalEntry}
    (feed : Wal.Log base.wal entries) {h h' : List (Label BuildCall Error BuildOp)}
    {s s' t : BuildPool} {pid : Nat} {sub : String} {out : AdvanceOutcome}
    (before : buildSystem.Trace Adopts (buildPool base receiving) h s)
    (call : buildSystem.Step s (.spawn pid (.advance sub)) s')
    (after : buildSystem.Trace Adopts s' h' t) (said : .call pid (.reply out) none ∈ h')
    (stop : out.pending = false) :
    ∃ head, Wal.head s.world.base.wal = .ok head ∧ head ≤ out.appliedSeq := by
  obtain ⟨obeyed, honest⟩ := System.invariant_of_trace (fun _ _ op _ => buildOp_cover op)
    (honest_preserved entries pid) before (System.obeyed_of_no_procs _)
    ⟨⟨[], by rwa [List.append_nil]⟩, fun _ _ _ _ _ bad => (nomatch bad),
      fun _ _ _ bad => (nomatch bad), fun _ bad => (nomatch bad)⟩
  obtain ⟨more, log⟩ := honest.feed
  cases call with
  | spawn free =>
    -- the feed as it stood at the spawn is the bound for the rest of the run
    have start := honest_start honest log pid (.advance sub)
    obtain ⟨-, reached⟩ := System.invariant_of_trace (fun _ _ op _ => buildOp_cover op)
      (honest_preserved (entries ++ more) pid) after
      (obeyed.update coverProtocol _ pid _ (buildOp_cover (.advance sub)))
      (by rwa [coverProtocol.view_update])
    exact ⟨_, log.head_eq, reached.said out said stop⟩

/-- The replies of a run. -/
private def replies (h : List (Label BuildCall Error BuildOp)) : List (Nat × AdvanceOutcome) :=
  h.filterMap fun
    | .call pid (.reply out) none => some (pid, out)
    | _ => none

private theorem mem_of_replies {h : List (Label BuildCall Error BuildOp)} {pid : Nat}
    {out : AdvanceOutcome} (said : (pid, out) ∈ replies h) : .call pid (.reply out) none ∈ h := by
  obtain ⟨l, member, found⟩ := List.mem_filterMap.mp said
  split at found
  next =>
    cases found
    exact member
  next => cases found

/-- One entry in the feed, and a replica for everyone that covers none. -/
def behind : World :=
  { World.init toString with
    wal := Kv.commit [.put (Wal.entryKey 1) (.entry ⟨1, .fileDelete "x", 0⟩),
      .put Wal.seqKey (.seq 1)] ∅
    replicas := fun _ => (∅ : Kv Value).insert Snapshot.appliedKey (.applied 0) }

theorem behind_log : Wal.Log behind.wal [⟨1, .fileDelete "x", 0⟩] := Wal.Log.empty.commit 0 _

/-- A call for a replica that is behind. -/
def calledBehind : BuildPool :=
  ⟨(buildPool behind true).world, Function.update (fun _ => none) 0
    (some ⟨.advance "u", [], BuildOp.prog (.advance "u")⟩)⟩

theorem calledBehind_step :
    buildSystem.Step (buildPool behind true) (.spawn 0 (.advance "u")) calledBehind :=
  .spawn rfl

/-- The first write of the replay loses the fence before the other builder published. -/
def lostFence : List (System.Move Error BuildOp) :=
  List.replicate 5 (.call 0) ++ .fault 0 (.fs (.fenced "epoch 2")) :: List.replicate 3 (.call 0)

private theorem lostFence_played :
    (buildScheduler.play lostFence [] calledBehind).isSome = true := by decide +kernel

/-- The builder that took the fence has published nothing, and the call reports the old
    coverage as final. -/
theorem advance_stops_short :
    ¬ ∀ (base : World) (receiving : Bool) (entries : List WalEntry)
      (h h' : List (Label BuildCall Error BuildOp)) (s s' t : BuildPool) (pid : Nat)
      (sub : String) (out : AdvanceOutcome), Wal.Log base.wal entries →
      buildSystem.Trace (fun _ _ => True) (buildPool base receiving) h s →
      buildSystem.Step s (.spawn pid (.advance sub)) s' →
      buildSystem.Trace (fun _ _ => True) s' h' t → .call pid (.reply out) none ∈ h' →
      out.pending = false →
      ∃ head, Wal.head s.world.base.wal = .ok head ∧ head ≤ out.appliedSeq := by
  intro claim
  have said : (0, ⟨0, false⟩) ∈ replies
      ((buildScheduler.play lostFence [] calledBehind).get lostFence_played).1 := by decide +kernel
  obtain ⟨head, found, reached⟩ := claim behind true _ [] _ _ _ _ 0 "u" ⟨0, false⟩ behind_log .nil
    calledBehind_step (buildScheduler.trace_of_play lostFence calledBehind lostFence_played)
    (mem_of_replies said) rfl
  cases found.symm.trans (show Wal.head behind.wal = .ok 1 by decide +kernel)
  cases reached

/-- How to follow a schedule in which no claim is given back before a read of coverage. -/
def adoptScheduler : buildSystem.Scheduler Adopts where
  enabled := buildScheduler.enabled
  mayFail := buildScheduler.mayFail
  mayDrop := buildScheduler.mayDrop
  tick := buildScheduler.tick
  check s l :=
    match l with
    | .call pid (.base _) _ => (s.procs pid).all fun p => !(sampledBy p.op p.past).released
    | _ => true
  enabled_sound := buildScheduler.enabled_sound
  mayFail_sound := buildScheduler.mayFail_sound
  mayDrop_sound := buildScheduler.mayDrop_sound
  tick_sound := buildScheduler.tick_sound
  check_sound s l ok := by
    rintro pid sub p n seq rfl found released
    simp [found, released] at ok

/-- The same call when the replay goes through: head, coverage, claim, three calls of the
    replay, the marker and the release. -/
def replayedThrough : List (System.Move Error BuildOp) := List.replicate 9 (.call 0)

private theorem replayedThrough_played :
    (adoptScheduler.play replayedThrough [] calledBehind).isSome = true := by decide +kernel

theorem advance_honest_replayed :
    ∃ head, Wal.head behind.wal = .ok head ∧ head ≤ 1 := by
  have said : (0, ⟨1, false⟩) ∈ replies
      ((adoptScheduler.play replayedThrough [] calledBehind).get replayedThrough_played).1 := by
    decide +kernel
  exact advance_honest behind_log .nil calledBehind_step
    (adoptScheduler.trace_of_play replayedThrough calledBehind replayedThrough_played)
    (mem_of_replies said) rfl

end RustApi
