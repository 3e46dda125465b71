import RustApi.Fs.Engine

/-!
# The plan of an upload

What an accepted `InitRequest` says about the parts of its upload: `validate` bounds the
sizes, and from the bounds alone the sizes that `upload_part` expects cover the file
exactly, with every `u64` and `i32` computation in range.

## Main result

`upload_plan`: the parts of an accepted upload, and which bodies pass as one of them.
-/

namespace RustApi

open Lib

/-! ### What `validate` accepts -/

/-- The bounds of an accepted request. Both kinds of upload meet them. -/
structure InitRequest.Fits (req : InitRequest) : Prop where
  parts : 1 ≤ req.fileTotalParts ∧ req.fileTotalParts ≤ maxMultipartParts
  part : 1 ≤ req.partSize ∧ req.partSize ≤ 10 * 1024 * 1024
  lastPartStart : (req.fileTotalParts - 1) * req.partSize < req.fileSize
  covered : req.fileSize ≤ req.fileTotalParts * req.partSize

theorem InitRequest.fits_of_validate {req : InitRequest} (accepted : req.validate = .ok ()) :
    req.Fits := by
  unfold validate at accepted
  split at accepted
  next => cases accepted
  next size =>
    split at accepted
    next => cases accepted
    next part =>
      split at accepted
      next => cases accepted
      next parts =>
        split at accepted
        next single =>
          split at accepted
          next => cases accepted
          next whole =>
            split at accepted
            next => cases accepted
            next small =>
              have same : req.partSize = req.fileSize := not_not.mp whole
              exact ⟨by rw [single]; decide, by omega, by rw [single]; omega,
                by rw [single]; omega⟩
        next multi =>
          split at accepted
          next => cases accepted
          next few =>
            split at accepted
            next => cases accepted
            next bounds =>
              dsimp only at accepted
              split at accepted
              next => cases accepted
              next =>
                split at accepted
                next => cases accepted
                next range =>
                  simp only [not_or, Nat.not_le, Nat.not_lt] at bounds range few
                  exact ⟨⟨by omega, few⟩, by omega, range.1, range.2⟩

/-! ### Sessions of accepted requests -/

/-- The session has the sizes of the request. -/
structure UploadSession.Of (s : UploadSession) (req : InitRequest) : Prop where
  fileSize : s.fileSize = req.fileSize
  partSize : s.partSize = req.partSize
  fileTotalParts : s.fileTotalParts = req.fileTotalParts

/-- A call writes no other session row than one with the sizes of the request. -/
def Call.Plans (req : InitRequest) (c : Call) : Prop :=
  ∀ s, c = .fs .master (.saveSession s) → req.validate = .ok () ∧ s.Of req

theorem openUpload_plans (bucket : String) {req : InitRequest} (accepted : req.validate = .ok ())
    (ownerSub id : String) (uploadId : Option String) :
    (FsEngine.openUpload bucket req ownerSub id uploadId).Only (Call.Plans req) := by
  have other : ∀ c : Call, (∀ s, c ≠ .fs .master (.saveSession s)) → Call.Plans req c :=
    fun c apart s same => absurd same (apart s)
  refine Prog.only_bind ⟨other _ (by simp), fun _ => trivial⟩ fun createdAt => ?_
  refine Prog.only_bind ⟨?_, fun _ => trivial⟩ fun _ => ?_
  · rintro _ ⟨⟩
    exact ⟨accepted, rfl, rfl, rfl⟩
  cases uploadId with
  | none => trivial
  | some uploadId =>
    refine Prog.only_bind (Prog.only_bind ⟨other _ (by simp), fun _ => trivial⟩ fun _ => trivial)
      fun backend => ?_
    cases backend with
    | none => trivial
    | some backendId => exact Prog.only_bind ⟨other _ (by simp), fun _ => trivial⟩ fun _ => trivial

/-- `init_upload` writes no other session row than one with the sizes of an accepted request. -/
theorem initUpload_plans (bucket : String) (req : InitRequest) (ownerSub : String) :
    (FsEngine.initUpload bucket req ownerSub).Only (Call.Plans req) := by
  have other : ∀ c : Call, (∀ s, c ≠ .fs .master (.saveSession s)) → Call.Plans req c :=
    fun c apart s same => absurd same (apart s)
  rw [FsEngine.initUpload_eq]
  cases accepted : req.validate with
  | error e => trivial
  | ok u =>
    refine Prog.only_bind trivial fun _ => ?_
    refine Prog.only_bind ⟨other _ (by simp), fun _ => trivial⟩ fun id => ?_
    change Prog.Only _ (if req.fileTotalParts = 1 then _ else _ : M String)
    split
    · -- the upload id decides nothing about the sizes
      exact openUpload_plans bucket accepted ownerSub id none
    · refine Prog.only_bind (Prog.only_bind ⟨other _ (by simp), fun _ => trivial⟩ fun _ =>
        Prog.only_bind ⟨other _ (by simp), fun _ => trivial⟩ fun _ =>
        Prog.only_bind ⟨other _ (by simp), fun _ => trivial⟩ fun _ => trivial) fun uploadId => ?_
      exact openUpload_plans bucket accepted ownerSub id (some uploadId)

/-! ### The sizes of the parts -/

/-- The parts of an upload as its session has them: every size in range, together the file, and
    all computations in the range of their types. -/
structure UploadPlan (s : UploadSession) : Prop where
  each : ∀ i < s.fileTotalParts,
    1 ≤ FsEngine.expectedSize s i ∧ FsEngine.expectedSize s i ≤ s.partSize
  total : ((List.range s.fileTotalParts).map (FsEngine.expectedSize s)).sum = s.fileSize
  upTo : ∀ k ≤ s.fileTotalParts,
    ((List.range k).map (FsEngine.expectedSize s)).sum ≤ s.fileSize
  fits : s.fileSize < 2 ^ 64 ∧ s.fileTotalParts * s.partSize < 2 ^ 64
  start : ∀ i < s.fileTotalParts, s.partSize * i ≤ s.fileSize
  number : ∀ i < s.fileTotalParts, FsEngine.asI32 (i + 1) = i + 1

/-- The parts before the last are full. -/
private theorem sum_full {s : UploadSession} {k : Nat} (before : k ≤ s.fileTotalParts - 1) :
    ((List.range k).map (FsEngine.expectedSize s)).sum = s.partSize * k := by
  -- on the parts in front: none of them is the last one
  induction k with
  | zero => rfl
  | succ k ih =>
    have full : FsEngine.expectedSize s k = s.partSize := if_neg (by omega)
    rw [List.range_succ, List.map_append, List.sum_append, ih (by omega), List.map_singleton,
      List.sum_singleton, full, Nat.mul_succ]

theorem UploadPlan.of_fits {s : UploadSession} {req : InitRequest} (session : s.Of req)
    (fits : req.Fits) : UploadPlan s := by
  obtain ⟨parts, part, lastPartStart, covered⟩ := fits
  rw [← session.fileTotalParts] at parts lastPartStart covered
  rw [← session.partSize] at part lastPartStart covered
  rw [← session.fileSize] at lastPartStart covered
  -- the file ends within the last part, which starts at `s.partSize * n`
  obtain ⟨n, count⟩ : ∃ n, s.fileTotalParts = n + 1 :=
    ⟨s.fileTotalParts - 1, (Nat.sub_add_cancel parts.1).symm⟩
  rw [count, Nat.add_sub_cancel, Nat.mul_comm] at lastPartStart
  rw [count, Nat.mul_comm, Nat.mul_succ] at covered
  have last : FsEngine.expectedSize s n = s.fileSize - s.partSize * n :=
    if_pos (by rw [count, Nat.add_sub_cancel])
  have full : ∀ i < n, FsEngine.expectedSize s i = s.partSize :=
    fun i before => if_neg (by omega)
  have whole : ((List.range (n + 1)).map (FsEngine.expectedSize s)).sum = s.fileSize := by
    rw [List.range_succ, List.map_append, List.sum_append, sum_full (by omega),
      List.map_singleton, List.sum_singleton, last, Nat.add_sub_cancel' lastPartStart.le]
  have start : ∀ i ≤ n, s.partSize * i ≤ s.partSize * n :=
    fun i before => Nat.mul_le_mul_left _ before
  have product : s.fileTotalParts * s.partSize ≤ maxMultipartParts * (10 * 1024 * 1024) :=
    Nat.mul_le_mul parts.2 part.2
  rw [maxMultipartParts] at product
  refine ⟨?_, by rw [count, whole], ?_, ?_, ?_, ?_⟩
  · intro i before
    -- a part in front is full, the last one has the rest of the file
    rcases Nat.lt_or_ge i n with inner | outer
    · rw [full i inner]
      exact ⟨part.1, le_rfl⟩
    · obtain rfl : i = n := by omega
      rw [last]
      omega
  · intro k bound
    rcases Nat.lt_or_ge n k with all | before
    · obtain rfl : k = n + 1 := by omega
      exact whole.le
    · rw [sum_full (by omega)]
      exact (start k before).trans lastPartStart.le
  · rw [count, Nat.mul_comm, Nat.mul_succ] at product ⊢
    omega
  · exact fun i before => (start i (by omega)).trans lastPartStart.le
  · intro i before
    -- `as i32` keeps the number of a part, the cap is far below
    have small : i + 1 < 2 ^ 31 := by
      have := parts.2
      rw [maxMultipartParts] at this
      omega
    have unsigned : (BitVec.ofNat 32 (i + 1)).toNat = i + 1 := by
      rw [BitVec.toNat_ofNat, Nat.mod_eq_of_lt (by omega)]
    rw [FsEngine.asI32, BitVec.toInt_eq_toNat_of_lt (by omega), unsigned]
    rfl

/-! ### The bodies that pass -/

/-- The checks of `upload_part` on the size of a body. -/
def PassesSizeChecks (s : UploadSession) (partIndex : Nat) (declaredLen : Option Nat)
    (chunks : List Bytes) : Prop :=
  FsEngine.checkDeclared s partIndex declaredLen = .ok () ∧
    ∃ body, FsEngine.readBody s partIndex (chunks.map .ok) [] = .ok body

/-- The loop over the body keeps what it reads, and lets it pass by its size alone. -/
theorem readBody_ok_iff (s : UploadSession) (partIndex : Nat) (chunks : List Bytes)
    (buf body : Bytes) :
    FsEngine.readBody s partIndex (chunks.map .ok) buf = .ok body ↔
      body = buf ++ chunks.flatten ∧
        buf.length + (chunks.map List.length).sum = FsEngine.expectedSize s partIndex := by
  -- on the chunks; `buf` is what the loop has read before them
  induction chunks generalizing buf with
  | nil =>
    simp only [List.map_nil, FsEngine.readBody, List.flatten_nil, List.append_nil, List.sum_nil,
      Nat.add_zero]
    split
    next other => exact ⟨fun bad => (nomatch bad), fun ⟨_, same⟩ => absurd same other⟩
    next same =>
      constructor
      · rintro ⟨⟩
        exact ⟨rfl, not_not.mp same⟩
      · rintro ⟨rfl, -⟩
        rfl
  | cons chunk chunks ih =>
    simp only [List.map_cons, FsEngine.readBody, List.flatten_cons, List.sum_cons]
    split
    next beyond =>
      -- what was read is already too much
      have never : buf.length + (chunk.length + (chunks.map List.length).sum) ≠
          FsEngine.expectedSize s partIndex := by omega
      split
      · exact ⟨fun bad => (nomatch bad), fun ⟨_, same⟩ => absurd same never⟩
      · exact ⟨fun bad => (nomatch bad), fun ⟨_, same⟩ => absurd same never⟩
    next => rw [ih, List.length_append, List.append_assoc, Nat.add_assoc]

theorem checkDeclared_ok_iff (s : UploadSession) (partIndex n : Nat) :
    FsEngine.checkDeclared s partIndex (some n) = .ok () ↔
      n = FsEngine.expectedSize s partIndex := by
  unfold FsEngine.checkDeclared
  dsimp only
  split
  next beyond => exact ⟨fun bad => (nomatch bad), fun same => absurd beyond.1 (by omega)⟩
  next =>
    split
    next beyond => exact ⟨fun bad => (nomatch bad), fun same => absurd beyond (by omega)⟩
    next =>
      split
      next other => exact ⟨fun bad => (nomatch bad), fun same => absurd same other⟩
      next same => exact ⟨fun _ => not_not.mp same, fun _ => rfl⟩

/-- A body passes when it has the size of the part, however it is cut into chunks. -/
theorem passesSizeChecks_iff (s : UploadSession) (partIndex : Nat) {declaredLen : Option Nat}
    {chunks : List Bytes} (honest : ∀ n, declaredLen = some n → n = (chunks.map List.length).sum) :
    PassesSizeChecks s partIndex declaredLen chunks ↔
      (chunks.map List.length).sum = FsEngine.expectedSize s partIndex := by
  simp only [PassesSizeChecks, readBody_ok_iff, List.length_nil, Nat.zero_add]
  constructor
  · rintro ⟨-, body, -, same⟩
    exact same
  · intro same
    refine ⟨?_, _, rfl, same⟩
    cases declaredLen with
    | none => rfl
    | some n => exact (checkDeclared_ok_iff s partIndex n).mpr ((honest n rfl).trans same)

/-- **The plan of an accepted upload** covers the file, and a body passes as one of its parts if
    and only if it has the size of that part. -/
theorem upload_plan {req : InitRequest} (accepted : req.validate = .ok ()) {s : UploadSession}
    (session : s.Of req) :
    UploadPlan s ∧ s.fileSize = req.fileSize ∧ s.partSize = req.partSize ∧
      ∀ i < req.fileTotalParts, ∀ (declaredLen : Option Nat) (chunks : List Bytes),
        (∀ n, declaredLen = some n → n = (chunks.map List.length).sum) →
        (PassesSizeChecks s i declaredLen chunks ↔
          (chunks.map List.length).sum = FsEngine.expectedSize s i) :=
  ⟨.of_fits session (InitRequest.fits_of_validate accepted), session.fileSize, session.partSize,
    fun i _ _ _ honest => passesSizeChecks_iff s i honest⟩

/-- A file in two parts, the last of which is short. -/
def shortLastRequest : InitRequest := ⟨1027, 1024, 2⟩

def shortLastSession : UploadSession :=
  ⟨"f", 1027, 1024, 2, some "up", "files/f", "alice", 0, [none, none], [none, none]⟩

theorem upload_plan_shortLast : UploadPlan shortLastSession ∧
    PassesSizeChecks shortLastSession 1 (some 3) [[1, 2], [], [3]] := by
  have accepted : shortLastRequest.validate = .ok () := by decide
  have session : shortLastSession.Of shortLastRequest := ⟨rfl, rfl, rfl⟩
  obtain ⟨plan, -, -, passes⟩ := upload_plan accepted session
  exact ⟨plan, (passes 1 (by decide) (some 3) _ (by rintro _ ⟨⟩; rfl)).mpr rfl⟩

end RustApi
