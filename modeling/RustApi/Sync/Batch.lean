import RustApi.Sync.PolicyReplay

/-!
# Batches of policy mutations

Several policy mutations can be replayed one by one, each under the policy it led to,
or all at once, each under the final policy. Both are replays of a history: a list of
operations, each with the policy in force when the replay looks at it. A file or a
marker is decided by the last look that concerns it.

## Main results

- `performed_history`: the effect of the replay of a history.
- `replay_batch_iff`: the two ways agree exactly when no look is lost in the batch and
  every last look finds the right of the end. Where the replica is in step and each
  mutation is followed by its own replay, this says that the operations, under the final
  policy, still concern every row whose read right the window changed.
-/

namespace RustApi

open Lib

namespace Snapshot

/-! ### Histories -/

/-- The operations with the policy in force right after each of them. -/
def history (P : Policy) : List WalOp → List (Policy × WalOp)
  | [] => []
  | op :: ops => (P.apply op, op) :: history (P.apply op) ops

/-- The operations, all of them under the policy `P`. -/
def under (P : Policy) (ops : List WalOp) : List (Policy × WalOp) := ops.map fun op => (P, op)

/-- The policy of the last entry with property `p`. -/
def lastUnder (H : List (Policy × WalOp)) (p : Policy → WalOp → Bool) : Option Policy :=
  ((H.filter fun h => p h.1 h.2).getLast?).map (·.1)

/-- The record of `f` after the replay of a history: the one that the filter shows under the
    policy of the last look at `f`, else the old one. -/
def fileAfter (M : Kv Value) (sub : String) (H : List (Policy × WalOp)) (f : String)
    (old : Option Value) : Option Value :=
  (lastUnder H fun P op => decide (LooksAt M (touchedRows P sub op) f)).elim old
    fun P => shown M P sub f

/-- Whether the marker `k` is there after the replay of a history: the policy of the last look
    that decides it says so, else it is as before. -/
def MarkedAfter (M : Kv Value) (sub : String) (H : List (Policy × WalOp)) (k : String)
    (old : Prop) : Prop :=
  (lastUnder H fun P op => decide (Decides M P sub (touchedRows P sub op) k)).elim old
    fun P => Marks M P sub k

private def historyActs (M : Kv Value) (sub : String) (H : List (Policy × WalOp)) : List Act :=
  H.flatMap fun h => rowActs M h.1 sub (touchedRows h.1 sub h.2)

private theorem historyActs_concat (M : Kv Value) (sub : String) (H : List (Policy × WalOp))
    (h : Policy × WalOp) : historyActs M sub (H ++ [h]) =
      historyActs M sub H ++ rowActs M h.1 sub (touchedRows h.1 sub h.2) := by
  simp [historyActs]

private theorem lastUnder_concat (H : List (Policy × WalOp)) (h : Policy × WalOp)
    (p : Policy → WalOp → Bool) :
    lastUnder (H ++ [h]) p = if p h.1 h.2 then some h.1 else lastUnder H p := by
  rw [lastUnder, List.filter_append]
  split
  next yes => simp [yes]
  next no => simp [no, lastUnder]

private theorem lastOf_file_history {M : Kv Value} {sub : String} (own : OwnIds M)
    (H : List (Policy × WalOp)) (f : String) :
    lastOf (Act.file f) (historyActs M sub H) =
      (lastUnder H fun P op => decide (LooksAt M (touchedRows P sub op) f)).map
        fun P => shown M P sub f := by
  induction H using List.reverseRecOn with
  | nil => rfl
  | append_singleton H h ih =>
    rw [historyActs_concat, lastOf_append, lastOf_file_rowActs own, lastUnder_concat, ih]
    by_cases looks : LooksAt M (touchedRows h.1 sub h.2) f
    · simp [looks]
    · simp [looks]

private theorem lastOf_marker_history {M : Kv Value} {sub : String} (own : OwnIds M)
    (H : List (Policy × WalOp)) (k : String) (old : Bool) :
    (lastOf (Act.marker k) (historyActs M sub H)).getD old = true ↔
      MarkedAfter M sub H k (old = true) := by
  induction H using List.reverseRecOn with
  | nil => rfl
  | append_singleton H h ih =>
    rw [historyActs_concat, lastOf_append, MarkedAfter, lastUnder_concat]
    -- the last entry that looks at the marker decides; one that does not look leaves it
    cases last : lastOf (Act.marker k) (rowActs M h.1 sub (touchedRows h.1 sub h.2)) with
    | none =>
      have undecided := (lastOf_marker_none own).mp last
      rw [Option.none_or, ih, MarkedAfter, if_neg (by simpa using undecided)]
    | some b =>
      have decided : Decides M h.1 sub (touchedRows h.1 sub h.2) k := by
        by_contra undecided
        rw [(lastOf_marker_none own).mpr undecided] at last
        cases last
      rw [if_pos (by simpa using decided)]
      exact lastOf_marker_some own (fun r mem => touchedRows_free mem) last

/-- What the replay of a history makes of each record and each marker. -/
private theorem performed_history {M : Kv Value} {sub : String} {H : List (Policy × WalOp)}
    {R R' : Kv Value} (own : OwnIds M) (performed : Performed (historyActs M sub H) R R') :
    (∀ f, R'[FsStore.fileKey f]? = fileAfter M sub H f R[FsStore.fileKey f]?) ∧
      ∀ k, FsStore.IsMarker k → (k ∈ R' ↔ MarkedAfter M sub H k (k ∈ R)) := by
  refine ⟨fun f => ?_, fun k hk => ?_⟩
  · rw [performed.file, lastOf_file_history own, fileAfter]
    cases lastUnder H fun P op => decide (LooksAt M (touchedRows P sub op) f) <;> rfl
  · rw [performed.marker k hk, lastOf_marker_history own]
    simp only [decide_eq_true_eq]

/-! ### The two ways of replaying -/

/-- One replay up to the head of the feed, when it advances. -/
def advance (sub : String) (w : World) : Option World :=
  match Wal.head w.wal with
  | .error _ => none
  | .ok head =>
    match (replay head sub).runOn w with
    | (.ok (.advanced _), w') => some w'
    | _ => none

/-- Replay after each mutation. -/
def replayEach (sub : String) : List WalOp → World → Option World
  | [], w => some w
  | op :: ops, w =>
    match advance sub (mutate op w) with
    | none => none
    | some w' => replayEach sub ops w'

/-- Replay once, after all mutations. -/
def replayOnce (sub : String) (ops : List WalOp) (w : World) : Option World :=
  advance sub (ops.foldl (fun w op => mutate op w) w)

private theorem advance_ok {sub : String} {w w' : World} {entries : List WalEntry} {applied : Nat}
    (log : Wal.Log w.wal entries) (covered : coverage (w.replicas sub) = some applied)
    (h : advance sub w = some w') :
    Wrote sub ((entries.drop applied).flatMap fun e =>
      opActs w.master w.enforcer.policy sub e.op) w w' ∧
      coverage (w'.replicas sub) = some entries.length := by
  simp only [advance, log.head_eq] at h
  split at h
  next n w₁ ran =>
    obtain rfl : w₁ = w' := by simpa using h
    obtain ⟨applied₁, marker, order, wrote, moved⟩ := replay_ok log le_rfl ran
    obtain rfl : applied = applied₁ := by simpa [covered] using marker
    rw [List.take_of_length_le (by simp)] at wrote
    exact ⟨wrote, moved⟩
  · cases h

/-- The replays after each mutation bring the replica from `R` to `R'`. -/
private inductive Looked (M : Kv Value) (sub : String) : Policy → List WalOp → Kv Value → Kv Value →
    Prop where
  | nil {P R} : Looked M sub P [] R R
  | cons {P op ops R R₁ R'}
      (performed : Performed (rowActs M (P.apply op) sub (touchedRows (P.apply op) sub op)) R R₁)
      (rest : Looked M sub (P.apply op) ops R₁ R') : Looked M sub P (op :: ops) R R'

private theorem Looked.performed {M : Kv Value} {sub : String} {P : Policy} {ops : List WalOp}
    {R R' : Kv Value} (looked : Looked M sub P ops R R') :
    Performed (historyActs M sub (history P ops)) R R' := by
  induction looked with
  | nil => exact Performed.nil _
  | cons performed _ ih => exact performed.append ih

private theorem replayEach_ok {sub : String} {ops : List WalOp} {w w' : World}
    {entries : List WalEntry} (policyOps : ∀ op ∈ ops, isPolicyOp op = true)
    (log : Wal.Log w.wal entries) (covered : coverage (w.replicas sub) = some entries.length)
    (h : replayEach sub ops w = some w') :
    Looked w.master sub w.enforcer.policy ops (w.replicas sub) (w'.replicas sub) := by
  induction ops generalizing w entries with
  | nil =>
    obtain rfl : w = w' := by simpa [replayEach] using h
    exact .nil
  | cons op ops ih =>
    rw [replayEach] at h
    split at h
    · cases h
    next w₁ advanced =>
      -- each mutation appends one entry, and the replay after it starts from the head it left
      have longer := mutate_log log op
      obtain ⟨wrote, moved⟩ := advance_ok longer (w := mutate op w) covered advanced
      rw [List.drop_left, List.flatMap_singleton,
        opActs_policy (policyOps op List.mem_cons_self)] at wrote
      have rest := ih (fun o mem => policyOps o (List.mem_cons_of_mem _ mem))
        (wrote.only.wal ▸ longer) moved h
      rw [wrote.only.master, wrote.only.enforcer] at rest
      exact .cons wrote.performed rest

/-- Mutations leave the master and the replicas alone and log their operations in order. -/
private theorem mutations_ok (ops : List WalOp) {w : World} {entries : List WalEntry}
    (log : Wal.Log w.wal entries) :
    ∃ new, Wal.Log (ops.foldl (fun w op => mutate op w) w).wal (entries ++ new) ∧
      new.map (·.op) = ops ∧ (ops.foldl (fun w op => mutate op w) w).master = w.master ∧
      (ops.foldl (fun w op => mutate op w) w).replicas = w.replicas ∧
      (ops.foldl (fun w op => mutate op w) w).enforcer.policy =
        ops.foldl Policy.apply w.enforcer.policy := by
  induction ops generalizing w entries with
  | nil => exact ⟨[], by simpa using log, rfl, rfl, rfl, rfl⟩
  | cons op ops ih =>
    obtain ⟨new, longer, names, master, replicas, policy⟩ := ih (mutate_log log op)
    refine ⟨⟨entries.length + 1, op, w.clock⟩ :: new, ?_, by simp [names], master, replicas, policy⟩
    simpa using longer

private theorem replayOnce_ok {sub : String} {ops : List WalOp} {w w' : World}
    {entries : List WalEntry} (policyOps : ∀ op ∈ ops, isPolicyOp op = true)
    (log : Wal.Log w.wal entries) (covered : coverage (w.replicas sub) = some entries.length)
    (h : replayOnce sub ops w = some w') :
    Performed (historyActs w.master sub (under (ops.foldl Policy.apply w.enforcer.policy) ops))
      (w.replicas sub) (w'.replicas sub) := by
  obtain ⟨new, longer, names, master, replicas, policy⟩ := mutations_ok ops log
  obtain ⟨wrote, -⟩ := advance_ok longer (by rwa [replicas]) h
  have performed := wrote.performed
  rw [List.drop_left, master, policy, replicas] at performed
  -- all entries are replayed under the one policy that the last mutation left
  have acts : (new.flatMap fun e => opActs w.master (ops.foldl Policy.apply w.enforcer.policy) sub
      e.op) = historyActs w.master sub (under (ops.foldl Policy.apply w.enforcer.policy) ops) := by
    rw [historyActs, under, List.flatMap_map, ← names, List.flatMap_map]
    refine List.flatMap_congr fun e mem => opActs_policy (policyOps _ ?_)
    exact names ▸ List.mem_map_of_mem mem
  rwa [acts] at performed

/-! ### When they agree -/

section Window

variable (M : Kv Value) (P : Policy) (sub : String) (ops : List WalOp)

/-- The policy that the last operation led to that looks at `f`, each under its own policy. -/
def lookedUnder (f : String) : Option Policy :=
  lastUnder (history P ops) fun Q op => decide (LooksAt M (touchedRows Q sub op) f)

/-- The same for a marker. -/
def decidedUnder (k : String) : Option Policy :=
  lastUnder (history P ops) fun Q op => decide (Decides M Q sub (touchedRows Q sub op) k)

/-- The rows that the operations concern under the policy that they all led to. -/
def lateRows : List (String × String) :=
  ops.flatMap (touchedRows (ops.foldl Policy.apply P) sub)

/-- What the operations of a window have to meet for a replica `R`. A look is lost when no
    operation concerns the file any more once all of them are made. -/
structure Batchable (R : Kv Value) : Prop where
  /-- The last look at a file finds the right of the end. -/
  file : ∀ f Q, lookedUnder M P sub ops f = some Q → LooksAt M (lateRows P sub ops) f →
    grants M Q sub f = grants M (ops.foldl Policy.apply P) sub f
  /-- A look that is lost would find the record that the replica holds. -/
  lostFile : ∀ f Q, lookedUnder M P sub ops f = some Q → ¬ LooksAt M (lateRows P sub ops) f →
    R[FsStore.fileKey f]? = shown M Q sub f
  /-- So does one that only the batch makes. -/
  lateFile : ∀ f, lookedUnder M P sub ops f = none → LooksAt M (lateRows P sub ops) f →
    R[FsStore.fileKey f]? = shown M (ops.foldl Policy.apply P) sub f
  marker : ∀ k, FsStore.IsMarker k → ∀ Q, decidedUnder M P sub ops k = some Q →
    Decides M (ops.foldl Policy.apply P) sub (lateRows P sub ops) k →
      (Marks M Q sub k ↔ Marks M (ops.foldl Policy.apply P) sub k)
  lostMarker : ∀ k, FsStore.IsMarker k → ∀ Q, decidedUnder M P sub ops k = some Q →
    ¬ Decides M (ops.foldl Policy.apply P) sub (lateRows P sub ops) k → (k ∈ R ↔ Marks M Q sub k)
  lateMarker : ∀ k, FsStore.IsMarker k → decidedUnder M P sub ops k = none →
    Decides M (ops.foldl Policy.apply P) sub (lateRows P sub ops) k →
      (k ∈ R ↔ Marks M (ops.foldl Policy.apply P) sub k)

/-- Every mutation of the window is followed by its own replay. -/
def EachFollowed (M : Kv Value) (sub : String) : Policy → List WalOp → Prop
  | _, [] => True
  | P, op :: ops =>
    (∀ f rec, M[FsStore.fileKey f]? = some (.file rec) →
      Followed M P (P.apply op) sub (touchedRows (P.apply op) sub op) f) ∧
      EachFollowed M sub (P.apply op) ops

end Window

section Agree

variable {M : Kv Value} {P : Policy} {sub : String} {ops : List WalOp}

private theorem lastUnder_under (Q : Policy) (ops : List WalOp) (p : Policy → WalOp → Bool) :
    lastUnder (under Q ops) p = if ∃ op ∈ ops, p Q op = true then some Q else none := by
  induction ops using List.reverseRecOn with
  | nil => rfl
  | append_singleton ops op ih =>
    have last : under Q (ops ++ [op]) = under Q ops ++ [(Q, op)] := by simp [under]
    rw [last, lastUnder_concat, ih]
    by_cases here : p Q op = true
    · simp [here]
    · simp [here, or_and_right, exists_or]

private theorem looksAt_lateRows {f : String} : LooksAt M (lateRows P sub ops) f ↔
    ∃ op ∈ ops, LooksAt M (touchedRows (ops.foldl Policy.apply P) sub op) f := by
  simp only [LooksAt, lateRows, List.mem_flatMap]
  constructor
  · rintro ⟨r, ⟨op, mem, touched⟩, attached⟩
    exact ⟨op, mem, r, touched, attached⟩
  · rintro ⟨op, mem, r, touched, attached⟩
    exact ⟨r, ⟨op, mem, touched⟩, attached⟩

private theorem lateRows_free {r : String × String} (mem : r ∈ lateRows P sub ops) :
    Text.Free ':' r.1 := by
  obtain ⟨op, -, touched⟩ := List.mem_flatMap.mp mem
  exact touchedRows_free touched

private theorem decides_lateRows {k : String} :
    Decides M (ops.foldl Policy.apply P) sub (lateRows P sub ops) k ↔
      ∃ op ∈ ops, Decides M (ops.foldl Policy.apply P) sub
        (touchedRows (ops.foldl Policy.apply P) sub op) k := by
  simp only [Decides, lateRows, List.mem_flatMap]
  constructor
  · rintro ⟨r, ⟨op, mem, touched⟩, decided⟩
    exact ⟨op, mem, r, touched, decided⟩
  · rintro ⟨op, mem, r, touched, decided⟩
    exact ⟨r, ⟨op, mem, touched⟩, decided⟩

private theorem fileAfter_once (f : String) (old : Option Value) :
    fileAfter M sub (under (ops.foldl Policy.apply P) ops) f old =
      if LooksAt M (lateRows P sub ops) f then shown M (ops.foldl Policy.apply P) sub f else old := by
  simp only [fileAfter, lastUnder_under, decide_eq_true_eq, looksAt_lateRows]
  split <;> rfl

private theorem markedAfter_once (k : String) (old : Prop) :
    MarkedAfter M sub (under (ops.foldl Policy.apply P) ops) k old ↔
      if Decides M (ops.foldl Policy.apply P) sub (lateRows P sub ops) k then
        Marks M (ops.foldl Policy.apply P) sub k
      else old := by
  simp only [MarkedAfter, lastUnder_under, decide_eq_true_eq, decides_lateRows]
  split <;> rfl

/-- Two policies show the same record exactly when they agree on the right. -/
private theorem shown_inj {Q Q' : Policy} {f : String} :
    shown M Q sub f = shown M Q' sub f ↔ grants M Q sub f = grants M Q' sub f := by
  constructor
  · intro same
    rw [Bool.eq_iff_iff]
    constructor
    · intro seen
      by_contra hidden
      obtain ⟨rec, here⟩ := grants_held seen
      simp [shown, seen, hidden, here] at same
    · intro seen
      by_contra hidden
      obtain ⟨rec, here⟩ := grants_held seen
      simp [shown, seen, hidden, here] at same
  · intro same
    simp only [shown, same]

/-- Two replicas, one after the separate replays and one after the batch. -/
private theorem same_iff_batchable {R A B : Kv Value}
    (each : (∀ f, A[FsStore.fileKey f]? = fileAfter M sub (history P ops) f R[FsStore.fileKey f]?) ∧
      ∀ k, FsStore.IsMarker k → (k ∈ A ↔ MarkedAfter M sub (history P ops) k (k ∈ R)))
    (once : (∀ f, B[FsStore.fileKey f]? = fileAfter M sub (under (ops.foldl Policy.apply P) ops) f
        R[FsStore.fileKey f]?) ∧
      ∀ k, FsStore.IsMarker k →
        (k ∈ B ↔ MarkedAfter M sub (under (ops.foldl Policy.apply P) ops) k (k ∈ R))) :
    SameData A B ↔ Batchable M P sub ops R := by
  constructor
  · intro same
    -- each field is one case of which of the two ways look
    have files : ∀ f, (lookedUnder M P sub ops f).elim R[FsStore.fileKey f]?
        (fun Q => shown M Q sub f) = if LooksAt M (lateRows P sub ops) f then
          shown M (ops.foldl Policy.apply P) sub f else R[FsStore.fileKey f]? := fun f => by
      rw [← fileAfter_once, ← once.1, ← same.file, each.1]
      rfl
    have markers : ∀ k, FsStore.IsMarker k → ((decidedUnder M P sub ops k).elim (k ∈ R)
        (fun Q => Marks M Q sub k) ↔
          if Decides M (ops.foldl Policy.apply P) sub (lateRows P sub ops) k then
            Marks M (ops.foldl Policy.apply P) sub k else k ∈ R) := fun k hk => by
      rw [← markedAfter_once, ← once.2 k hk, ← same.marker k hk, each.2 k hk]
      rfl
    constructor
    · intro f Q looked late
      simpa [looked, late, shown_inj] using files f
    · intro f Q looked lost
      simpa [looked, lost] using (files f).symm
    · intro f silent late
      simpa [silent, late] using files f
    · intro k hk Q decided late
      simpa [decided, late] using markers k hk
    · intro k hk Q decided lost
      simpa [decided, lost] using (markers k hk).symm
    · intro k hk silent late
      simpa [silent, late] using markers k hk
  · intro meets
    constructor
    · intro f
      rw [each.1, once.1, fileAfter_once]
      change (lookedUnder M P sub ops f).elim _ _ = _
      cases looked : lookedUnder M P sub ops f with
      | none =>
        split
        next late => exact meets.lateFile f looked late
        · rfl
      | some Q =>
        split
        next late => exact shown_inj.mpr (meets.file f Q looked late)
        next lost => exact (meets.lostFile f Q looked lost).symm
    · intro k hk
      rw [each.2 k hk, once.2 k hk, markedAfter_once]
      change (decidedUnder M P sub ops k).elim _ _ ↔ _
      cases decided : decidedUnder M P sub ops k with
      | none =>
        split
        next late => exact meets.lateMarker k hk decided late
        · exact Iff.rfl
      | some Q =>
        split
        next late => exact meets.marker k hk Q decided late
        next lost => exact (meets.lostMarker k hk Q decided lost).symm

/-- Replays that follow each mutation keep the replica in step. -/
private theorem Looked.filtered {R R' : Kv Value} (sound : Sound M) (looked : Looked M sub P ops R R')
    (before : Filtered M P sub R) (followed : EachFollowed M sub P ops) :
    Filtered M (ops.foldl Policy.apply P) sub R' := by
  induction looked with
  | nil => exact before
  | cons performed _ ih =>
    exact ih (filtered_of_followed sound (fun _ mem => touchedRows_free mem) before performed
      followed.1) followed.2

/-- The batch looks at all the rows at once. -/
private theorem historyActs_under (M : Kv Value) (P : Policy) (sub : String) (ops : List WalOp) :
    historyActs M sub (under (ops.foldl Policy.apply P) ops) =
      rowActs M (ops.foldl Policy.apply P) sub (lateRows P sub ops) := by
  rw [historyActs, under, List.flatMap_map, rowActs, lateRows, List.flatMap_assoc]
  rfl

end Agree

/-- **Batching**: one replay of a window of policy mutations and a replay after each of them
    leave the same records and markers exactly when the window is batchable for the replica. Where
    the replica is in step with the policy before, and each mutation is followed by its own
    replay, that says: the rows that the operations concern in the end follow the change of the
    whole window. -/
theorem replay_batch_iff {sub : String} {ops : List WalOp} {w w₁ w₂ : World}
    {entries : List WalEntry} (policyOps : ∀ op ∈ ops, isPolicyOp op = true)
    (own : OwnIds w.master) (log : Wal.Log w.wal entries)
    (covered : coverage (w.replicas sub) = some entries.length)
    (each : replayEach sub ops w = some w₁) (once : replayOnce sub ops w = some w₂) :
    (SameData (w₁.replicas sub) (w₂.replicas sub) ↔
      Batchable w.master w.enforcer.policy sub ops (w.replicas sub)) ∧
    ∀ fuel u D, Sound w.master → ((copyFiltered fuel sub).runOn w).1 = .ok (u, D) →
      SameData (w.replicas sub) D → EachFollowed w.master sub w.enforcer.policy ops →
        (SameData (w₁.replicas sub) (w₂.replicas sub) ↔
          ∀ f rec, w.master[FsStore.fileKey f]? = some (.file rec) →
            Followed w.master w.enforcer.policy (ops.foldl Policy.apply w.enforcer.policy) sub
              (lateRows w.enforcer.policy sub ops) f) := by
  have looked := replayEach_ok policyOps log covered each
  have performed := replayOnce_ok policyOps log covered once
  refine ⟨same_iff_batchable (performed_history own looked.performed)
    (performed_history own performed), fun fuel u D sound copied insync followed => ?_⟩
  have before := copyFiltered_filtered own copied
  have after := looked.filtered sound (before.of_same insync) followed
  rw [historyActs_under] at performed
  -- the separate replays lead to the copy, so the batch has to as well
  rw [← look_exact_iff sound (fun r mem => lateRows_free mem) before after insync performed]
  exact ⟨fun same => ⟨fun f => (same.file f).symm, fun k hk => (same.marker k hk).symm⟩,
    fun same => ⟨fun f => (same.file f).symm, fun k hk => (same.marker k hk).symm⟩⟩

/-- `alice` reads the invoice as an editor. -/
def editorGrant : World :=
  { nestedGrant with
    enforcer := ⟨∅, ⟨[⟨"editors", "invoice:1", "read"⟩], [⟨"alice", "editors"⟩]⟩⟩ }

/-- First `alice` leaves the editors, then the editors lose the invoice. Replayed one by one the
    file is dropped; in one batch neither operation looks at the row any more, and it stays. -/
theorem replay_batch_keeps_file :
    ∃ w₁ w₂,
      replayEach "alice" [.groupRemove "alice" "editors",
        .policyRuleRemove "editors" "invoice:1" "read"] editorGrant = some w₁ ∧
      replayOnce "alice" [.groupRemove "alice" "editors",
        .policyRuleRemove "editors" "invoice:1" "read"] editorGrant = some w₂ ∧
      (w₁.replicas "alice")[FsStore.fileKey "b"]? = none ∧
      (w₂.replicas "alice")[FsStore.fileKey "b"]? = some (.file bobFile) :=
  ⟨_, _, rfl, rfl, rfl, rfl⟩

/-- A rule of somebody else and the removal of the rule that `alice` depends on: each is followed,
    and the batch still concerns the invoice. -/
theorem replay_batch_drops_file :
    SameData
      (((replayEach "alice" [.policyRuleAdd "carol" "invoice:2" "read",
        .policyRuleRemove "editors" "invoice:1" "read"] editorGrant).getD editorGrant).replicas
          "alice")
      (((replayOnce "alice" [.policyRuleAdd "carol" "invoice:2" "read",
        .policyRuleRemove "editors" "invoice:1" "read"] editorGrant).getD editorGrant).replicas
          "alice") := by
  refine ((replay_batch_iff (w := editorGrant)
    (show ∀ op ∈ [WalOp.policyRuleAdd "carol" "invoice:2" "read",
      .policyRuleRemove "editors" "invoice:1" "read"], isPolicyOp op = true by decide)
    invoiceMaster_sound.own emptyFeed rfl rfl rfl).2 8 [] invoiceMaster invoiceMaster_sound rfl
    (sameData_covered _ 0) ⟨fun f rec here => ?_, fun f rec here => ?_, trivial⟩).mpr
    fun f rec here => ?_
  all_goals
    obtain ⟨same, -⟩ := invoiceMaster_held here
    obtain rfl := FsStore.fileKey_inj.mp same
  · exact .inr ⟨by decide, by decide⟩
  · exact .inl ⟨by decide, by decide⟩
  · exact .inl ⟨by decide, by decide⟩

end Snapshot

end RustApi
