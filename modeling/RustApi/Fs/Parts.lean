import RustApi.Fs.Ledger

/-!
# Parts of one upload

`merge_part` reads and writes two rows under the lock of the session: the multipart record
takes the part first, and the session row after it. Any number of part uploads, completions,
cancels and sweeps run at the same time, and any store call can fail.

## Main results

- `parts_kept`: no part that was uploaded gets lost, the record has every part that the
  session has, and while no call fails both have it with the same etag, except for a part that
  is being merged.
- `etags_differ`: a run in which a part is uploaded again and the two rows differ in between.
-/

namespace RustApi

open Lib

/-- A part upload that returned has its etag in the session row, and a record has every part
    that its session has. -/
structure KeepsParts (s : FsPool) : Prop where
  uploaded : ∀ pid p f slot body declared checksum sub row, s.procs pid = some p →
    p.op = .uploadPart f slot body declared checksum sub → p.rest.result = some (.ok ()) →
    FsStore.getSession f s.world.master = .ok (some row) →
    ∃ etag, row.etags[slot]? = some (some etag)
  recorded : ∀ f row u m slot etag, FsStore.getSession f s.world.master = .ok (some row) →
    row.s3UploadId = some u → FsStore.loadMultipart u s.world.master = .ok (some m) →
    row.etags[slot]? = some (some etag) → ∃ etag', m.parts.lookup slot = some etag'

/-- The two rows of an upload agree on the parts that the session has, or `other` says why not. -/
def AgreesBut (other : String → Nat → Prop) (s : FsPool) : Prop :=
  ∀ f row u m slot etag, FsStore.getSession f s.world.master = .ok (some row) →
    row.s3UploadId = some u → FsStore.loadMultipart u s.world.master = .ok (some m) →
    row.etags[slot]? = some (some etag) → m.parts.lookup slot = some etag ∨ other f slot

/-- A part upload for this slot holds the lock of the session and has written the record, but not
    yet the session row. -/
def Merging (s : FsPool) (f : String) (slot : Nat) : Prop :=
  f ∈ s.world.locks ∧ ∃ pid p body declared checksum sub, s.procs pid = some p ∧
    p.op = .uploadPart f slot body declared checksum sub ∧ p.rest.result = none ∧
    (workOf p).held = some f ∧ (workOf p).window = true

/-- No call fails. -/
def Faultless (_ : FsPool) : Label Call Error FsOp → Prop
  | .call _ _ (some _) => False
  | _ => True

/-! ### Parts in two rows -/

/-- The record has the part and the session row may not have it: between the two writes, or
    after the second one failed. -/
def Work.Behind (st : Work) (op : FsOp) (f : String) (slot : Nat) : Prop :=
  st.failed = true ∨ st.window = true ∧ st.held = some f ∧ op.slot = some slot

def Late (view : Nat → Option (FsOp × Work)) (f : String) (slot : Nat) : Prop :=
  ∃ pid op st, view pid = some (op, st) ∧ st.Behind op f slot

/-- What the rows of the uploads have in common. -/
structure Parts (w : World) (view : Nat → Option (FsOp × Work)) : Prop where
  target : ∀ pid op st, view pid = some (op, st) → st.merged = true → ∃ t, st.target = some t
  merged : ∀ pid op st f slot row, view pid = some (op, st) → st.merged = true →
    op.slot = some slot → op.Names f → FsStore.getSession f w.master = .ok (some row) →
    ∃ etag, row.etags[slot]? = some (some etag)
  noted : ∀ f row u m slot etag, FsStore.getSession f w.master = .ok (some row) →
    row.s3UploadId = some u → FsStore.loadMultipart u w.master = .ok (some m) →
    row.etags[slot]? = some (some etag) →
    ∃ etag', m.parts.lookup slot = some etag' ∧ (etag' = etag ∨ Late view f slot)
  blank : ∀ f row u, InLimbo view u → FsStore.getSession f w.master = .ok (some row) →
    row.s3UploadId = some u → ∀ e ∈ row.etags, e = none

section Steps

variable {w w' : World} {view : Nat → Option (FsOp × Work)} {pid : Nat} {op : FsOp} {st st' : Work}

theorem Late.mono {f : String} {slot : Nat} (late : Late view f slot)
    (here : view pid = some (op, st)) (own : st.Behind op f slot → st'.Behind op f slot) :
    Late (Function.update view pid (some (op, st'))) f slot := by
  obtain ⟨q, op₁, st₁, there, behind⟩ := late
  by_cases mine : q = pid
  · subst mine
    rw [here] at there
    cases there
    exact ⟨q, op, st', by simp, own behind⟩
  · exact ⟨q, op₁, st₁, by simp [mine, there], behind⟩

/-- What a request adds to what the rows rest on: nothing, and what excuses them stays. -/
structure Work.Tame (op : FsOp) (st st' : Work) : Prop where
  merged : st'.merged = true → st.merged = true ∧ st'.target = st.target
  behind : ∀ f slot, st.Behind op f slot → st'.Behind op f slot
  limbo : st'.limbo = true → st.limbo = true ∧ st'.upload = st.upload

/-- A request that only read something, or wrote what no row rests on. -/
theorem Work.Tame.of_same
    (same : (st'.merged, st'.target, st'.failed, st'.window, st'.held, st'.limbo, st'.upload) =
      (st.merged, st.target, st.failed, st.window, st.held, st.limbo, st.upload)) :
    st.Tame op st' := by
  simp only [Prod.mk.injEq] at same
  obtain ⟨merged, target, failed, window, held, limbo, upload⟩ := same
  refine ⟨fun isMerged => ⟨merged ▸ isMerged, target⟩, fun f slot behind => ?_,
    fun isOpen => ⟨limbo ▸ isOpen, upload⟩⟩
  rwa [Work.Behind, failed, window, held]

/-- A step that writes no row, or takes rows away. -/
theorem Parts.still (parts : Parts w view) (here : view pid = some (op, st))
    (tame : st.Tame op st')
    (rows : ∀ f row, FsStore.getSession f w'.master = .ok (some row) →
      FsStore.getSession f w.master = .ok (some row))
    (loads : ∀ u m, FsStore.loadMultipart u w'.master = .ok (some m) →
      FsStore.loadMultipart u w.master = .ok (some m)) :
    Parts w' (Function.update view pid (some (op, st'))) := by
  refine ⟨?_, ?_, ?_, ?_⟩
  · intro q op₁ st₁ found isMerged
    rcases update_eq_some.mp found with ⟨rfl, ⟨⟩⟩ | ⟨-, old⟩
    · rw [(tame.merged isMerged).2]
      exact parts.target q op st here (tame.merged isMerged).1
    · exact parts.target q op₁ st₁ old isMerged
  · intro q op₁ st₁ f slot row found isMerged part names there
    rcases update_eq_some.mp found with ⟨rfl, ⟨⟩⟩ | ⟨-, old⟩
    · exact parts.merged q op st f slot row here (tame.merged isMerged).1 part names
        (rows f row there)
    · exact parts.merged q op₁ st₁ f slot row old isMerged part names (rows f row there)
  · intro f row u m slot etag there upload record part
    obtain ⟨etag', has, same | late⟩ :=
      parts.noted f row u m slot etag (rows f row there) upload (loads u m record) part
    · exact ⟨etag', has, .inl same⟩
    · exact ⟨etag', has, .inr (late.mono here (tame.behind f slot))⟩
  · rintro f row u ⟨q, op₁, st₁, found, isOpen, drew⟩ there
    refine parts.blank f row u ?_ (rows f row there)
    rcases update_eq_some.mp found with ⟨rfl, ⟨⟩⟩ | ⟨-, old⟩
    · obtain ⟨before, same⟩ := tame.limbo isOpen
      exact ⟨q, op, st, here, before, same ▸ drew⟩
    · exact ⟨q, op₁, st₁, old, isOpen, drew⟩

/-- A step that leaves the store alone. -/
theorem Parts.learns (parts : Parts w view) (here : view pid = some (op, st))
    (tame : st.Tame op st') (master : w'.master = w.master) :
    Parts w' (Function.update view pid (some (op, st'))) :=
  parts.still here tame (fun _ _ there => master ▸ there) fun _ _ there => master ▸ there

/-! ### Writes -/

/-- The first row of a session has no part. -/
theorem Parts.openSession (parts : Parts w view) (ledger : Ledger w view)
    (here : view pid = some (op, st)) {s : UploadSession} (opens : st.Opens s) :
    Parts { w with master := FsStore.saveSession s w.master } (Function.update view pid
      (some (op, { st with saved := true, limbo := s.s3UploadId.isSome }))) := by
  obtain ⟨unsaved, file, upload, -, -, none⟩ := opens
  have rows := FsStore.getSession_saveSession s w.master
  have loads := FsStore.loadMultipart_saveSession s w.master
  have empty : ∀ slot etag, s.etags[slot]? ≠ some (some etag) := fun slot etag there =>
    nomatch none _ (List.mem_of_getElem? there)
  -- nothing was merged into a session that is not there yet
  have fresh : ∀ q op₁ st₁ f slot, view q = some (op₁, st₁) → st₁.merged = true →
      op₁.slot = some slot → op₁.Names f → s.id ≠ f := by
    rintro q op₁ st₁ f slot there isMerged part names rfl
    obtain ⟨t, target⟩ := parts.target q op₁ st₁ there isMerged
    obtain ⟨names', ⟨p, op₂, st₂, born, saved, file₂, -⟩, -⟩ :=
      (ledger.knows q op₁ st₁ there).target t target
    rw [ledger.op q op₁ st₁ there] at names'
    have same := FsOp.Names.unique (by rw [part]; exact Option.some_ne_none slot) names names'
    obtain rfl := ledger.drawn.files.alone p pid s.id
      ((fieldBy_of _ born).trans (same ▸ file₂)) ((fieldBy_of _ here).trans file)
    rw [here] at born
    cases born
    rw [unsaved] at saved
    cases saved
  refine ⟨?_, ?_, ?_, ?_⟩
  · intro q op₁ st₁ found isMerged
    rcases update_eq_some.mp found with ⟨rfl, ⟨⟩⟩ | ⟨-, old⟩
    · exact parts.target q op st here isMerged
    · exact parts.target q op₁ st₁ old isMerged
  · intro q op₁ st₁ f slot row found isMerged part names there
    obtain ⟨st₀, old, merged⟩ : ∃ st₀, view q = some (op₁, st₀) ∧ st₀.merged = true := by
      rcases update_eq_some.mp found with ⟨rfl, ⟨⟩⟩ | ⟨-, old⟩
      · exact ⟨st, here, isMerged⟩
      · exact ⟨st₁, old, isMerged⟩
    refine parts.merged q op₁ st₀ f slot row old merged part names ?_
    exact ((rows f).trans (if_neg (fresh q op₁ st₀ f slot old merged part names))).symm.trans there
  · intro f row u m slot etag there drew record part
    rw [rows] at there
    split at there
    · cases there
      exact absurd part (empty slot etag)
    · obtain ⟨etag', has, same | late⟩ :=
        parts.noted f row u m slot etag there drew ((loads u).symm.trans record) part
      · exact ⟨etag', has, .inl same⟩
      · exact ⟨etag', has, .inr (late.mono here fun behind => behind)⟩
  · rintro f row u ⟨q, op₁, st₁, found, isOpen, drew⟩ there drew'
    rw [rows] at there
    split at there
    · cases there
      exact none
    · rcases update_eq_some.mp found with ⟨rfl, ⟨⟩⟩ | ⟨-, old⟩
      · -- another session of this upload would have been saved by this init
        obtain ⟨-, ⟨p, op₂, st₂, born, saved, -, upload₂, -⟩, -⟩ := ledger.sessions f row there
        have saved' := ledger.drawn.saved_of_upload here born saved (upload₂.trans drew') drew
        rw [unsaved] at saved'
        cases saved'
      · exact parts.blank f row u ⟨q, op₁, st₁, old, isOpen, drew⟩ there drew'

/-- When the row takes a part, its record has it or is not there. -/
theorem Work.Merges.noted {s : UploadSession} (merges : st.Merges s) (ledger : Ledger w view)
    (here : view pid = some (op, st)) :
    ∃ s₀ slot etag checksum, st.row = some s₀ ∧ s = FsEngine.withPart s₀ slot etag checksum ∧
      slot < s₀.etags.length ∧ op.slot = some slot ∧ (∃ t, st.target = some t) ∧
      ∀ u, s₀.s3UploadId = some u → ¬ InLimbo view u ∧
        ∀ m, FsStore.loadMultipart u w.master = .ok (some m) → m.parts.lookup slot = some etag := by
  obtain ⟨s₀, slot, etag, checksum, row, rfl, inside, part, t, target, noted⟩ := merges
  have knows := ledger.knows pid op st here
  obtain ⟨-, same⟩ := ledger.row_target here (by rw [part]; exact Option.some_ne_none slot) row target
  refine ⟨s₀, slot, etag, checksum, row, rfl, inside, ledger.op pid op st here ▸ part, ⟨t, target⟩,
    fun u upload => ?_⟩
  rcases noted with single | ⟨ensured, noted⟩
  · cases ((knows.target t target).2.single single).symm.trans (same.trans upload)
  obtain ⟨t', u', target', upload', settled⟩ := knows.ensured ensured
  obtain rfl := Option.some.inj (target.symm.trans target')
  obtain rfl := Option.some.inj ((same.trans upload).symm.trans upload')
  refine ⟨settled, fun m found => ?_⟩
  -- what was read of the record under the lock is still there
  have current : ∀ r, st.record = some r → FsStore.loadMultipart u w.master = .ok r := by
    intro r record
    obtain ⟨-, -, t', u', target', -, upload', found'⟩ := knows.record r record
    obtain rfl := Option.some.inj (target.symm.trans target')
    obtain rfl := Option.some.inj ((same.trans upload).symm.trans upload')
    exact found'
  rcases noted with absent | ⟨m', record, has⟩
  · cases found.symm.trans (current _ absent)
  · obtain rfl : m = m' := Option.some.inj (Except.ok.inj (found.symm.trans (current _ record)))
    exact has

theorem Parts.mergeSession (parts : Parts w view) (ledger : Ledger w view)
    (here : view pid = some (op, st)) {s : UploadSession} (merges : st.Merges s) :
    Parts { w with master := FsStore.saveSession s w.master } (Function.update view pid
      (some (op, { st with row := some s, read := some s, window := false, merged := true }))) := by
  obtain ⟨s₀, slot, etag, checksum, row, rfl, inside, part, target, noted⟩ :=
    merges.noted ledger here
  have knows := ledger.knows pid op st here
  obtain ⟨held, -, found⟩ := knows.row s₀ row
  have rows := FsStore.getSession_saveSession (FsEngine.withPart s₀ slot etag checksum) w.master
  have loads := FsStore.loadMultipart_saveSession (FsEngine.withPart s₀ slot etag checksum) w.master
  have etags : ∀ i, (FsEngine.withPart s₀ slot etag checksum).etags[i]? =
      if slot = i then some (some etag) else s₀.etags[i]? := by
    intro i
    by_cases same : slot = i
    · subst same
      simp [FsEngine.withPart, inside]
    · simp [FsEngine.withPart, same]
  -- this request is no longer behind, and no other caller changes
  have late : ∀ f i, i ≠ slot → Late view f i → Late (Function.update view pid (some (op,
      { st with row := some (FsEngine.withPart s₀ slot etag checksum),
                read := some (FsEngine.withPart s₀ slot etag checksum),
                window := false, merged := true }))) f i := by
    intro f i other late
    refine late.mono here ?_
    rintro (failed | ⟨-, -, part'⟩)
    · exact .inl failed
    · exact absurd (Option.some.inj (part'.symm.trans part)) other
  refine ⟨?_, ?_, ?_, ?_⟩
  · intro q op₁ st₁ there isMerged
    rcases update_eq_some.mp there with ⟨-, ⟨⟩⟩ | ⟨-, old⟩
    · exact target
    · exact parts.target q op₁ st₁ old isMerged
  · intro q op₁ st₁ f i row₁ there isMerged part₁ names there₁
    rw [rows] at there₁
    split at there₁
    next same =>
      cases there₁
      rw [etags]
      by_cases mine : slot = i
      · exact ⟨etag, if_pos mine⟩
      rw [if_neg mine]
      rcases update_eq_some.mp there with ⟨rfl, ⟨⟩⟩ | ⟨-, old⟩
      · exact absurd (Option.some.inj (part.symm.trans part₁)) mine
      · exact parts.merged q op₁ st₁ f i s₀ old isMerged part₁ names (same ▸ found)
    next other =>
      rcases update_eq_some.mp there with ⟨rfl, ⟨⟩⟩ | ⟨-, old⟩
      · -- a part upload merges into the session that it names
        refine absurd (FsOp.Names.unique (by rw [part]; exact Option.some_ne_none slot) ?_ names)
          other
        exact ledger.op q op st here ▸ knows.names _ held
      · exact parts.merged q op₁ st₁ f i row₁ old isMerged part₁ names there₁
  · intro f row₁ u m i etag₁ there upload record has
    replace record := (loads u).symm.trans record
    rw [rows] at there
    split at there
    next same =>
      cases there
      rw [etags] at has
      by_cases mine : slot = i
      · rw [if_pos mine] at has
        exact ⟨etag, mine ▸ (noted u upload).2 m record, .inl (Option.some.inj (Option.some.inj has))⟩
      · rw [if_neg mine] at has
        obtain ⟨etag', has', agree | behind⟩ :=
          parts.noted f s₀ u m i etag₁ (same ▸ found) upload record has
        · exact ⟨etag', has', .inl agree⟩
        · exact ⟨etag', has', .inr (late f i (Ne.symm mine) behind)⟩
    next other =>
      obtain ⟨etag', has', agree | ⟨q, op₁, st₁, there₁, behind⟩⟩ :=
        parts.noted f row₁ u m i etag₁ there upload record has
      · exact ⟨etag', has', .inl agree⟩
      · refine ⟨etag', has', .inr ?_⟩
        refine Late.mono ⟨q, op₁, st₁, there₁, behind⟩ here ?_
        rintro (failed | ⟨-, held', -⟩)
        · exact .inl failed
        · exact absurd (Option.some.inj (held.symm.trans held')) other
  · rintro f row₁ u ⟨q, op₁, st₁, there₁, isOpen, drew⟩ there upload
    have before : InLimbo view u := by
      rcases update_eq_some.mp there₁ with ⟨rfl, ⟨⟩⟩ | ⟨-, old⟩
      · exact ⟨q, op, st, here, isOpen, drew⟩
      · exact ⟨q, op₁, st₁, old, isOpen, drew⟩
    rw [rows] at there
    split at there
    · cases there
      exact absurd before (noted u upload).1
    · exact parts.blank f row₁ u before there upload

/-- The first record has no part, and neither has its session. -/
theorem Parts.openRecord (parts : Parts w view) (here : view pid = some (op, st))
    {m : PersistedMultipart} (open' : st.limbo = true) (upload : st.upload = some m.uploadId) :
    Parts { w with master := FsStore.saveMultipart m w.master } (Function.update view pid
      (some (op, { st with limbo := false }))) := by
  have rows := FsStore.getSession_saveMultipart m w.master
  have loads := FsStore.loadMultipart_saveMultipart m w.master
  refine ⟨?_, ?_, ?_, ?_⟩
  · intro q op₁ st₁ found isMerged
    rcases update_eq_some.mp found with ⟨rfl, ⟨⟩⟩ | ⟨-, old⟩
    · exact parts.target q op st here isMerged
    · exact parts.target q op₁ st₁ old isMerged
  · intro q op₁ st₁ f slot row found isMerged part names there
    replace there := (rows f).symm.trans there
    rcases update_eq_some.mp found with ⟨rfl, ⟨⟩⟩ | ⟨-, old⟩
    · exact parts.merged q op st f slot row here isMerged part names there
    · exact parts.merged q op₁ st₁ f slot row old isMerged part names there
  · intro f row u m' slot etag there upload' record part
    replace there := (rows f).symm.trans there
    rw [loads] at record
    split at record
    next same =>
      subst same
      have none := parts.blank f row m.uploadId ⟨pid, op, st, here, open', upload⟩ there upload' _
        (List.mem_of_getElem? part)
      cases none
    next =>
      obtain ⟨etag', has, same | late⟩ := parts.noted f row u m' slot etag there upload' record part
      · exact ⟨etag', has, .inl same⟩
      · exact ⟨etag', has, .inr (late.mono here fun behind => behind)⟩
  · rintro f row u ⟨q, op₁, st₁, found, isOpen, drew⟩ there
    rcases update_eq_some.mp found with ⟨rfl, ⟨⟩⟩ | ⟨-, old⟩
    · cases isOpen
    · exact parts.blank f row u ⟨q, op₁, st₁, old, isOpen, drew⟩ ((rows f).symm.trans there)

theorem Parts.mergeRecord (parts : Parts w view) (ledger : Ledger w view)
    (here : view pid = some (op, st)) {m : PersistedMultipart} (records : st.Records m) :
    Parts { w with master := FsStore.saveMultipart m w.master } (Function.update view pid
      (some (op, { st with record := some (some m), window := true }))) := by
  obtain ⟨r, slot, etag, record, rfl, part, -, -⟩ := records
  have knows := ledger.knows pid op st here
  obtain ⟨-, -, t, u₀, target, held, upload₀, found₀⟩ := knows.record _ record
  obtain ⟨rfl, -⟩ := ledger.records u₀ r found₀
  have part' : op.slot = some slot := ledger.op pid op st here ▸ part
  have rows := FsStore.getSession_saveMultipart
    { r with parts := insertPart r.parts slot etag } w.master
  have loads := FsStore.loadMultipart_saveMultipart
    { r with parts := insertPart r.parts slot etag } w.master
  have late : ∀ f i, Late view f i → Late (Function.update view pid (some (op, { st with
      record := some (some { r with parts := insertPart r.parts slot etag }),
      window := true }))) f i := by
    intro f i late
    exact late.mono here (Or.imp_right fun ⟨_, facts⟩ => ⟨rfl, facts⟩)
  -- the record is ahead of the session row until the same request writes that
  refine ⟨?_, ?_, ?_, ?_⟩
  · intro q op₁ st₁ there isMerged
    rcases update_eq_some.mp there with ⟨rfl, ⟨⟩⟩ | ⟨-, old⟩
    · exact parts.target q op st here isMerged
    · exact parts.target q op₁ st₁ old isMerged
  · intro q op₁ st₁ f i row there isMerged part₁ names there₁
    replace there₁ := (rows f).symm.trans there₁
    rcases update_eq_some.mp there with ⟨rfl, ⟨⟩⟩ | ⟨-, old⟩
    · exact parts.merged q op st f i row here isMerged part₁ names there₁
    · exact parts.merged q op₁ st₁ f i row old isMerged part₁ names there₁
  · intro f row u m i etag₁ there upload found has
    replace there := (rows f).symm.trans there
    obtain ⟨own, original⟩ := ledger.sessions f row there
    rw [loads] at found
    split at found
    next same =>
      cases found
      rw [lookup_insertPart]
      by_cases mine : i = slot
      · -- until the session row is written this request is behind
        have id : t.id = f := by
          rw [← own]
          exact ledger.not_shared original (upload.trans (congrArg some same.symm))
            (knows.target t target).2 upload₀
        refine ⟨etag, if_pos mine, .inr ⟨pid, op, _, Function.update_self pid _ view, .inr ?_⟩⟩
        exact ⟨rfl, id ▸ held, mine ▸ part'⟩
      · rw [if_neg mine]
        obtain ⟨etag', has', agree | behind⟩ :=
          parts.noted f row u r i etag₁ there upload (same ▸ found₀) has
        · exact ⟨etag', has', .inl agree⟩
        · exact ⟨etag', has', .inr (late f i behind)⟩
    next =>
      obtain ⟨etag', has', agree | behind⟩ := parts.noted f row u m i etag₁ there upload found has
      · exact ⟨etag', has', .inl agree⟩
      · exact ⟨etag', has', .inr (late f i behind)⟩
  · rintro f row u ⟨q, op₁, st₁, there₁, isOpen, drew⟩ there
    refine parts.blank f row u ?_ ((rows f).symm.trans there)
    rcases update_eq_some.mp there₁ with ⟨rfl, ⟨⟩⟩ | ⟨-, old⟩
    · exact ⟨q, op, st, here, isOpen, drew⟩
    · exact ⟨q, op₁, st₁, old, isOpen, drew⟩

end Steps

/-! ### Any call -/

theorem Parts.mute {w : World} {view : Nat → Option (FsOp × Work)} {pid : Nat} {op : FsOp}
    {st : Work} {c : Call} (parts : Parts w view) (here : view pid = some (op, st))
    (mute : c.Mute st.op) :
    Parts (c.exec w).2 (Function.update view pid
      (some (op, workProtocol.track st c (c.exec w).1))) := by
  obtain ⟨rows, loads⟩ := mute.rows w
  rw [mute.quiet.2]
  exact parts.still here (.of_same rfl) (fun f row there => (rows f).symm.trans there)
    fun u m there => (loads u).symm.trans there

/-- A session row that was read: as the target, or again under the lock. -/
private theorem Parts.readSession {w : World} {view : Nat → Option (FsOp × Work)} {pid : Nat}
    {op : FsOp} {st : Work} {id : String} (parts : Parts w view) (here : view pid = some (op, st))
    (allowed : workProtocol.allowed st (.fs .master (.getSession id)))
    (r : Except Error (Option UploadSession)) :
    Parts w (Function.update view pid
      (some (op, workProtocol.track st (.fs .master (.getSession id)) r))) := by
  cases r with
  | error e => exact parts.learns here (.of_same rfl) rfl
  | ok found =>
    simp only at allowed ⊢
    split at allowed
    next idle =>
      rw [if_pos idle]
      refine parts.learns here ⟨fun merged => ?_, fun _ _ behind => behind,
        fun isOpen => ⟨isOpen, rfl⟩⟩ rfl
      -- who has merged has read its session before
      obtain ⟨t, target⟩ := parts.target pid op st here merged
      cases allowed.2.symm.trans target
    next busy =>
      rw [if_neg busy]
      exact parts.learns here (.of_same rfl) rfl

private theorem Parts.readRecord {w : World} {view : Nat → Option (FsOp × Work)} {pid : Nat}
    {op : FsOp} {st : Work} (parts : Parts w view) (here : view pid = some (op, st)) (u : String)
    (r : Except Error (Option PersistedMultipart)) :
    Parts w (Function.update view pid
      (some (op, workProtocol.track st (.fs .master (.loadMultipart u)) r))) := by
  cases r with
  | error e => exact parts.learns here (.of_same rfl) rfl
  | ok found =>
    simp only
    split
    · exact parts.learns here (.of_same rfl) rfl
    split
    · exact parts.learns here (.of_same rfl) rfl
    · exact parts.learns here (.of_same rfl) rfl

/-- A call on the store writes a row of the caller's own upload, takes rows away, or reads. -/
private theorem Parts.onMaster {w : World} {view : Nat → Option (FsOp × Work)} {pid : Nat}
    {op : FsOp} {st : Work} {c : FsCall} (parts : Parts w view) (ledger : Ledger w view)
    (here : view pid = some (op, st)) (allowed : workProtocol.allowed st (.fs .master c)) :
    Parts (Call.exec (.fs .master c) w).2 (Function.update view pid
      (some (op, workProtocol.track st (.fs .master c) (Call.exec (.fs .master c) w).1))) := by
  cases c with
  | saveSession s =>
    simp only at allowed
    simp only [Call.exec, FsCall.exec, World.fsStore, World.setFsStore]
    split at allowed
    next idle =>
      rw [if_pos idle]
      exact parts.openSession ledger here allowed
    next busy =>
      rw [if_neg busy]
      exact parts.mergeSession ledger here allowed
  | getSession id => exact parts.readSession here allowed (FsStore.getSession id w.master)
  | deleteSession id session =>
    -- what a delete takes away needs no etag any more
    refine parts.still here (.of_same rfl) (fun f row there => ?_) fun u m there => ?_
    · change FsStore.getSession f (FsStore.deleteSession id session w.master) = _ at there
      rw [FsStore.getSession_deleteSession] at there
      split at there
      · cases there
      · exact there
    · change FsStore.loadMultipart u (FsStore.deleteSession id session w.master) = _ at there
      rw [FsStore.loadMultipart_deleteSession] at there
      split at there
      · cases there
      · exact there
  | saveMultipart m =>
    simp only at allowed
    simp only [Call.exec, FsCall.exec, World.fsStore, World.setFsStore]
    split at allowed
    next idle =>
      rw [if_pos idle]
      exact parts.openRecord here allowed.1 allowed.2.1
    next busy =>
      rw [if_neg busy]
      exact parts.mergeRecord ledger here allowed
  | loadMultipart u => exact parts.readRecord here u (FsStore.loadMultipart u w.master)
  | deleteMultipart u =>
    refine parts.still here (.of_same rfl) (fun f row there => ?_) fun v m there => ?_
    · exact (FsStore.getSession_deleteMultipart u w.master f).symm.trans there
    · change FsStore.loadMultipart v (FsStore.deleteMultipart u w.master) = _ at there
      rw [FsStore.loadMultipart_deleteMultipart] at there
      split at there
      · cases there
      · exact there
  | setBytes k v => cases allowed
  | commit ws => cases allowed
  | _ => exact parts.mute here trivial

private theorem Parts.call {w : World} {view : Nat → Option (FsOp × Work)} {pid : Nat} {op : FsOp}
    {st : Work} {c : Call} (parts : Parts w view) (ledger : Ledger w view)
    (here : view pid = some (op, st)) (allowed : workProtocol.allowed st c) :
    Parts (c.exec w).2 (Function.update view pid
      (some (op, workProtocol.track st c (c.exec w).1))) := by
  cases c with
  | fs side c =>
    cases side with
    | replica sub => cases allowed
    | master => exact parts.onMaster ledger here allowed
  | s3 c =>
    cases c with
    | getState u =>
      by_cases idle : st.op.slot = none
      · simp only [Call.exec, S3Call.exec]
        cases w.states[u]? with
        | none =>
          simp only [if_pos idle]
          exact parts.learns here ⟨fun merged => ⟨merged, rfl⟩, fun _ _ behind => behind,
            fun bad => by cases bad⟩ rfl
        | some state => exact parts.learns here (.of_same rfl) rfl
      · exact parts.mute here idle
    | _ => exact parts.mute here trivial
  | wal c => exact parts.mute here trivial
  | policy c => exact parts.mute here trivial
  -- the window is open while the lock is held, so the one who locks has none, and the one who
  -- unlocks inside it has failed
  | lock id =>
    refine parts.learns here ⟨fun merged => ⟨merged, rfl⟩, ?_, fun isOpen => ⟨isOpen, rfl⟩⟩ rfl
    rintro f slot (failed | ⟨window, -⟩)
    · exact .inl failed
    · cases allowed.2.symm.trans window
  | unlock id =>
    refine parts.learns here ⟨fun merged => ⟨merged, rfl⟩, ?_, fun isOpen => ⟨isOpen, rfl⟩⟩ rfl
    rintro f slot (failed | ⟨window, -⟩)
    · exact .inl failed
    · exact .inl (allowed.2 window)
  | now => exact parts.learns here (.of_same rfl) rfl
  | uuid =>
    have shut : st.limbo ≠ true := fun isOpen => by
      cases allowed.1.symm.trans ((ledger.knows pid op st here).limbo isOpen).1
    simp only [Call.exec]
    split
    · exact parts.learns here ⟨fun merged => ⟨merged, rfl⟩, fun _ _ behind => behind,
        fun isOpen => absurd isOpen shut⟩ rfl
    · exact parts.learns here ⟨fun merged => ⟨merged, rfl⟩, fun _ _ behind => behind,
        fun isOpen => absurd isOpen shut⟩ rfl

private theorem parts_preserved (bucket : String)
    (cond : FsPool → Label Call Error FsOp → Prop) :
    (fsSystem bucket).Preserves workProtocol Work.start
      (fun s l => cond s l ∧ Ledger s.world (workProtocol.view Work.start s))
      (fun _ => Parts) where
  answers c w := c.answered_exec w
  faults _ _ mayFail := Call.answered_fault mayFail
  spawn := by
    rintro h s pid op - free parts
    have late : ∀ f slot, Late (workProtocol.view Work.start s) f slot →
        Late (Function.update (workProtocol.view Work.start s) pid (some (op, Work.start op)))
          f slot := by
      rintro f slot ⟨q, op₁, st₁, there, behind⟩
      exact ⟨q, op₁, st₁, update_fresh (workProtocol.view_eq_none.mpr free) there, behind⟩
    -- a request that starts has merged nothing and opened nothing
    refine ⟨?_, ?_, ?_, ?_⟩
    · intro q op₁ st₁ found isMerged
      rcases update_eq_some.mp found with ⟨-, ⟨⟩⟩ | ⟨-, old⟩
      · cases isMerged
      · exact parts.target q op₁ st₁ old isMerged
    · intro q op₁ st₁ f slot row found isMerged
      rcases update_eq_some.mp found with ⟨-, ⟨⟩⟩ | ⟨-, old⟩
      · cases isMerged
      · exact parts.merged q op₁ st₁ f slot row old isMerged
    · intro f row u m slot etag there upload record part
      obtain ⟨etag', has, same | behind⟩ := parts.noted f row u m slot etag there upload record part
      · exact ⟨etag', has, .inl same⟩
      · exact ⟨etag', has, .inr (late f slot behind)⟩
    · rintro f row u ⟨q, op₁, st₁, found, isOpen, drew⟩
      rcases update_eq_some.mp found with ⟨-, ⟨⟩⟩ | ⟨-, old⟩
      · cases isOpen
      · exact parts.blank f row u ⟨q, op₁, st₁, old, isOpen, drew⟩
  env := by
    rintro h s w - ⟨clock, enforcer, -, rfl⟩ ⟨target, merged, noted, blank⟩
    exact ⟨target, merged, noted, blank⟩
  call := fun _ _ _ _ _ _ met here allowed _ parts => parts.call met.2 here allowed
  fault := by
    intro h s pid op st c e _ here _ mayFail parts
    rcases st.track_fault e mayFail with same | same | same
    · rw [same]
      exact parts.learns here (.of_same rfl) rfl
    · -- the mark excuses the caller from now on
      rw [same]
      exact parts.learns here ⟨fun merged => ⟨merged, rfl⟩, fun _ _ _ => .inl rfl,
        fun isOpen => ⟨isOpen, rfl⟩⟩ rfl
    · rw [same]
      exact parts.learns here ⟨fun merged => ⟨merged, rfl⟩, fun _ _ behind => behind,
        fun bad => by cases bad⟩ rfl
  drop _ _ _ _ _ _ _ mayDrop _ := mayDrop.elim

/-! ### Runs without faults -/

/-- Only a session write that does not succeed is marked as failed. -/
theorem Work.track_failed (st : Work) (c : Call) (r : Except Error c.Ans)
    (answered : ∀ s, c = .fs .master (.saveSession s) → ∃ a, r = .ok a) :
    (workProtocol.track st c r).failed = st.failed := by
  cases c with
  | fs side c =>
    cases side with
    | replica sub => rfl
    | master =>
      cases c with
      | saveSession s =>
        obtain ⟨a, rfl⟩ := answered s rfl
        simp only
        split <;> rfl
      | getSession id =>
        rcases r with e | found
        · rfl
        · simp only
          split <;> rfl
      | loadMultipart u =>
        rcases r with e | found
        · rfl
        · simp only
          split
          · rfl
          · split <;> rfl
      | saveMultipart m =>
        rcases r with e | a
        · rfl
        · simp only
          split <;> rfl
      | deleteSession id session => cases r <;> rfl
      | _ => rfl
  | s3 c =>
    cases c with
    | getState u =>
      rcases r with e | _ | state
      · simp only
        split <;> rfl
      · simp only
        split <;> rfl
      · rfl
    | _ => rfl
  | now => cases r <;> rfl
  | uuid =>
    rcases r with e | id
    · rfl
    · simp only
      split <;> rfl
  | _ => rfl

private theorem unfailed_preserved (bucket : String) {cond : FsPool → Label Call Error FsOp → Prop}
    (faultless : ∀ s l, cond s l → Faultless s l) :
    (fsSystem bucket).Preserves workProtocol Work.start cond
      (fun _ _ view => ∀ pid op st, view pid = some (op, st) → st.failed = false) where
  answers c w := c.answered_exec w
  faults _ _ mayFail := Call.answered_fault mayFail
  spawn := by
    intro h s pid op _ _ unfailed q op₁ st₁ found
    rcases update_eq_some.mp found with ⟨-, ⟨⟩⟩ | ⟨-, old⟩
    · rfl
    · exact unfailed q op₁ st₁ old
  env := fun _ _ _ _ _ unfailed => unfailed
  call := by
    intro h s pid op st c _ here _ _ unfailed q op₁ st₁ found
    rcases update_eq_some.mp found with ⟨-, ⟨⟩⟩ | ⟨-, old⟩
    · refine (st.track_failed c _ ?_).trans (unfailed pid op st here)
      rintro row rfl
      exact ⟨(), rfl⟩
    · exact unfailed q op₁ st₁ old
  fault := fun _ s pid _ _ c e met => absurd (faultless s (.call pid c (some e)) met) id
  drop := fun _ _ _ _ _ _ _ bad _ => nomatch bad

/-! ### Any run -/

/-- **No part is lost**. In every run from a store without uploads, whatever fails and however the
    calls of the requests interleave: a part upload that has returned has its etag in the session
    row, and a record has every part that its session has. When no call fails the two rows have
    the same etag for each part, but for a part that is being merged. -/
theorem parts_kept {bucket : String} {cond : FsPool → Label Call Error FsOp → Prop} {w : World}
    (none : FsStore.NoUploads w.master) (ids : Function.Injective w.supply)
    {h : List (Label Call Error FsOp)} {s : FsPool}
    (run : (fsSystem bucket).Trace cond (fsPool w) h s) :
    KeepsParts s ∧ ((∀ t l, cond t l → Faultless t l) → AgreesBut (Merging s) s) := by
  have start : Parts w (workProtocol.view Work.start (fsPool w)) :=
    ⟨fun _ _ _ bad => (nomatch bad), fun _ _ _ _ _ _ bad => (nomatch bad),
      fun f row _ _ _ _ there => (nomatch (none.getSession f).symm.trans there),
      fun _ _ _ ⟨_, _, _, bad, _⟩ => (nomatch bad)⟩
  obtain ⟨obeyed, parts⟩ := System.invariant_of_trace (fun _ _ op _ => fsOp_works bucket op)
    (parts_preserved bucket cond) (run.assume fun _ _ run => (ledger_of_trace none ids run).2)
    (System.obeyed_of_no_procs _) start
  have ledger := (ledger_of_trace none ids run).2
  refine ⟨⟨?_, ?_⟩, fun faultless => ?_⟩
  · rintro pid ⟨op, past, rest⟩ f slot body declared checksum sub row there rfl result found
    have done := obeyed pid _ there
    cases rest with
    | call c next => cases result
    | ret r =>
      obtain rfl : r = .ok () := Option.some.inj result
      have merged := (done.2.2 rfl).1 (Option.some_ne_none slot)
      exact parts.merged pid _ _ f slot row (workProtocol.view_eq_some.mpr ⟨_, there, rfl, rfl⟩)
        merged rfl rfl found
  · intro f row u m slot etag there upload record part
    obtain ⟨etag', has, -⟩ := parts.noted f row u m slot etag there upload record part
    exact ⟨etag', has⟩
  · intro f row u m slot etag there upload record part
    obtain ⟨etag', has, rfl | ⟨q, op, st, here, failed | ⟨window, held, mine⟩⟩⟩ :=
      parts.noted f row u m slot etag there upload record part
    · exact .inl has
    -- a caller that failed is the excuse, and without faults there is none
    · have unfailed := (System.invariant_of_trace (fun _ _ op _ => fsOp_works bucket op)
        (unfailed_preserved bucket faultless) run (System.obeyed_of_no_procs _)
        fun _ _ _ bad => nomatch bad).2 q op st here
      cases unfailed.symm.trans failed
    · refine .inr ⟨ledger.holding.taken q f ((fieldBy_of _ here).trans held), ?_⟩
      have names := (ledger.knows q op st here).names f held
      obtain ⟨⟨op', past, rest⟩, at_q, rfl, rfl⟩ := workProtocol.view_eq_some.mp here
      rw [ledger.op q _ _ here] at names
      -- only a part upload has a slot, so the caller that is behind is one
      cases op' with
      | uploadPart g i body declared checksum sub =>
        obtain rfl : f = g := names
        obtain rfl : i = slot := Option.some.inj mine
        refine ⟨q, _, body, declared, checksum, sub, at_q, rfl, ?_, held, window⟩
        cases rest with
        | call c next => rfl
        | ret r => cases (obeyed q _ at_q).2.1.symm.trans window
      | _ => cases mine

/-! ### A part that is uploaded twice -/

def faultless : FsPool → Label Call Error FsOp → Bool
  | _, .call _ _ (some _) => false
  | _, _ => true

theorem faultless_sound (s : FsPool) (l : Label Call Error FsOp) (ok : faultless s l = true) :
    Faultless s l := by
  cases l with
  | call pid c e =>
    cases e with
    | none => trivial
    | some e => cases ok
  | _ => trivial

def faultlessScheduler (bucket : String) : (fsSystem bucket).Scheduler Faultless :=
  worldScheduler faultless faultless_sound

/-- `alice` uploads the second part of a file, and uploads it again until the record has it. -/
def partTwice : List (System.Move Error FsOp) :=
  .spawn 0 (.initUpload ⟨1025, 1024, 2⟩ "alice") :: List.replicate 8 (.call 0) ++
    .spawn 1 (.uploadPart "ii" 1 [.ok [7]] none none "alice") :: List.replicate 12 (.call 1) ++
      .spawn 2 (.uploadPart "ii" 1 [.ok [8]] none none "alice") :: List.replicate 10 (.call 2)

private theorem partTwice_played : ((faultlessScheduler "b").play partTwice []
    (fsPool (World.init longIds))).isSome = true := by
  decide +kernel

/-- The state in which the session row still has the etag of the first upload. -/
def reuploading : FsPool :=
  (((faultlessScheduler "b").play partTwice [] (fsPool (World.init longIds))).get
    partTwice_played).2

theorem reuploading_session : FsStore.getSession "ii" reuploading.world.master =
    .ok (some ⟨"ii", 1025, 1024, 2, some "ostore-iiii", "files/ii", "alice", 0,
      [none, some "iiiii"], [none, none]⟩) := by
  decide +kernel

theorem reuploading_record : FsStore.loadMultipart "ostore-iiii" reuploading.world.master =
    .ok (some ⟨"ostore-iiii", "b", "files/ii", "iii", [(1, "iiiiii")], 0⟩) := by
  decide +kernel

/-- No call has failed, the part is there, and its etag is not the same in the two rows. -/
theorem etags_differ :
    ¬ ∀ (bucket : String) (w : World) (h : List (Label Call Error FsOp)) (s : FsPool),
      FsStore.NoUploads w.master → Function.Injective w.supply →
      (fsSystem bucket).Trace Faultless (fsPool w) h s →
      KeepsParts s ∧ AgreesBut (fun _ _ => False) s := by
  intro claim
  have run := (faultlessScheduler "b").trace_of_play partTwice _ partTwice_played
  obtain ⟨-, agrees⟩ := claim "b" _ _ reuploading FsStore.noUploads_empty longIds_injective run
  rcases agrees "ii" _ _ _ 1 "iiiii" reuploading_session rfl reuploading_record rfl with same | bad
  · exact absurd same (by decide)
  · exact bad

theorem parts_kept_twice : KeepsParts reuploading ∧
    AgreesBut (Merging reuploading) reuploading ∧ Merging reuploading "ii" 1 := by
  have run := (faultlessScheduler "b").trace_of_play partTwice _ partTwice_played
  obtain ⟨kept, agrees⟩ := parts_kept FsStore.noUploads_empty longIds_injective run
  have merging : (reuploading.procs 2).map
      (fun p => (p.op, p.rest.result, (workOf p).held, (workOf p).window)) =
      some (.uploadPart "ii" 1 [.ok [8]] none none "alice", none, some "ii", true) := by
    decide +kernel
  obtain ⟨p, at_2, same⟩ := Option.map_eq_some_iff.mp merging
  simp only [Prod.mk.injEq] at same
  obtain ⟨op, running, held, window⟩ := same
  exact ⟨kept, agrees fun _ _ met => met, by decide +kernel,
    2, p, _, _, _, _, at_2, op, running, held, window⟩

end RustApi
