import RustApi.Policy.Save

/-!
# Capability tokens

`fs/token.rs`, and the keys that a node signs and verifies with. `jsonwebtoken` under HS256 and
`sha2` are parameters. The nodes of a fleet go through a list of secrets, each at its own pace:
a deployment makes the current secret of a node the previous one, and the next secret of the list
the current one.

## Main result

`honoured_iff`: in every run a node honours a token for a file and an action exactly when a node of
its own generation, or of the one before, minted it for them at most five minutes ago.
-/

namespace RustApi

/-- `Display`: the detail of a 400 or 404 is for the logs, that of a 500 is left out. -/
def FsError.display : FsError → String
  | .badRequest detail => detail
  | .payloadTooLarge => "payload too large"
  | .forbidden => "forbidden"
  | .notFound detail => detail
  | .internal _ => "internal server error"
  | .store _ => "internal server error"
  | .tooManyRequests => "too many requests"
  | .fenced _ => "internal server error"

namespace Capability

open Adapter (isHexDigit hexDigit)

/-! ### Secrets -/

abbrev Secret := List UInt8

/-- The value of a hex digit of either case. -/
def hexValue (c : Char) : Nat :=
  if c ≤ '9' then c.toNat - '0'.toNat
  else if c ≤ 'F' then c.toNat - 'A'.toNat + 10
  else c.toNat - 'a'.toNat + 10

/-- `u8::from_str_radix` on each two digits. -/
def bytesOfHex : List Char → Secret
  | high :: low :: rest => UInt8.ofNat (16 * hexValue high + hexValue low) :: bytesOfHex rest
  | _ => []

def parseSecretHex (s : String) : Except String Secret :=
  -- a byte that is no ASCII digit belongs to a character that is none
  if s.utf8ByteSize ≠ 64 ∨ ¬ s.toList.all isHexDigit then
    .error ("capability secret must be 64 hex chars (32 bytes), got " ++
      toString s.utf8ByteSize ++ " chars")
  else .ok (bytesOfHex s.toList)

/-- `kid_for`: the first four bytes of the hash, two digits each. -/
def kidFor (sha256 : Secret → List UInt8) (secret : Secret) : String :=
  String.ofList (((sha256 secret).take 4).flatMap fun b =>
    [hexDigit (b.toNat / 16), hexDigit (b.toNat % 16)])

/-! ### Tokens -/

structure FsClaims where
  sub : String
  fileId : String
  act : String
  exp : Nat
  deriving DecidableEq, Repr

/-- `jsonwebtoken` under HS256 and `sha2`. `encode` takes the `kid` of the header, `decode` the
    second in which it reads the clock; its `Validation` checks `exp` without leeway. -/
structure TokenLib where
  sha256 : Secret → List UInt8
  encode : Option String → FsClaims → Secret → Except String String
  decode : String → Secret → Nat → Except String FsClaims

/-- What the library promises, where `Signed token secret claims` says that the token carries the
    claims and that its signature verifies under the secret. -/
structure TokenLib.Lawful (lib : TokenLib) (Signed : String → Secret → FsClaims → Prop) : Prop where
  encode : ∀ {kid claims secret token}, lib.encode kid claims secret = .ok token →
    Signed token secret claims
  decode : ∀ {token secret now claims}, lib.decode token secret now = .ok claims ↔
    Signed token secret claims ∧ now ≤ claims.exp
  payload : ∀ {token secret secret' claims claims'}, Signed token secret claims →
    Signed token secret' claims' → claims = claims'

def defaultTtlSecs : Nat := 300

section Library

variable (lib : TokenLib)

def mint (sub fileId : String) (act : Action) (kid : String) (secret : Secret)
    (ttlSecs : Option Nat) (now : Nat) : Except FsError String :=
  let exp := now + ttlSecs.getD defaultTtlSecs
  match lib.encode (some kid) ⟨sub, fileId, act.text, exp⟩ secret with
  | .ok token => .ok token
  | .error text => .error (.internal text)

/-- `verify`. The library reads the clock in the second `decoded`, the code in the second `now`. -/
def verify (token fileId : String) (act : Action) (decoded now : Nat) :
    List Secret → Except FsError FsClaims
  | [] => .error .forbidden
  | secret :: secrets =>
    match lib.decode token secret decoded with
    | .error _ => verify token fileId act decoded now secrets
    | .ok claims =>
      if claims.exp < now then .error .forbidden
      else if claims.fileId ≠ fileId ∨ claims.act ≠ act.text then .error .forbidden
      else .ok claims

/-! ### Keys -/

structure TokenKey where
  kid : String
  secret : Secret
  deriving DecidableEq

structure TokenKeys where
  current : TokenKey
  previous : Option TokenKey
  deriving DecidableEq

/-- The key of a secret. -/
def TokenKey.of (secret : Secret) : TokenKey := ⟨kidFor lib.sha256 secret, secret⟩

/-- `TokenKeys::ephemeral`, from 32 random bytes. -/
def TokenKeys.ephemeral (random : Secret) : TokenKeys := ⟨.of lib random, none⟩

def TokenKeys.fromHex (current : String) (previous : Option String) : Except FsError TokenKeys := do
  let currentBytes ← (parseSecretHex current).mapError .badRequest
  let previous ← match previous with
    | none => pure none
    | some s => do
      let secret ← (parseSecretHex s).mapError .badRequest
      pure (some (.of lib secret))
  pure ⟨.of lib currentBytes, previous⟩

def TokenKeys.mint (keys : TokenKeys) (sub fileId : String) (act : Action) (now : Nat) :
    Except FsError String :=
  Capability.mint lib sub fileId act keys.current.kid keys.current.secret none now

/-- The secrets in the order in which they are tried. -/
def TokenKeys.secrets (keys : TokenKeys) : List Secret :=
  keys.current.secret :: keys.previous.toList.map (·.secret)

def TokenKeys.verify (keys : TokenKeys) (token fileId : String) (act : Action)
    (decoded now : Nat) : Except FsError Unit :=
  (Capability.verify lib token fileId act decoded now keys.secrets).map fun _ => ()

structure CapabilityConfig where
  secret : Option String
  previousSecret : Option String
  deriving DecidableEq, Repr

/-- `resolve_token_keys`; `random` is what the generator of the system gives. -/
def resolveTokenKeys (random : Secret) (config : CapabilityConfig) : Except String TokenKeys :=
  match config.secret with
  | some current => (TokenKeys.fromHex lib current config.previousSecret).mapError fun e =>
      "capability secret: " ++ e.display
  | none => .ok (.ephemeral lib random)

end Library

/-! ### What a secret must be -/

theorem bytesOfHex_length {n : Nat} {digits : List Char} (even : digits.length = 2 * n) :
    (bytesOfHex digits).length = n := by
  induction n generalizing digits with
  | zero =>
    obtain rfl := List.eq_nil_of_length_eq_zero even
    rfl
  | succ n ih =>
    obtain _ | ⟨high, _ | ⟨low, rest⟩⟩ := digits
    · simp at even
    · simp at even
      omega
    · simp only [List.length_cons] at even
      rw [bytesOfHex, List.length_cons, ih (by omega)]

theorem utf8Size_of_isHexDigit {c : Char} (digit : isHexDigit c = true) : c.utf8Size = 1 := by
  have low : c.toNat ≤ 127 := by
    simp only [isHexDigit, Bool.or_eq_true, Bool.and_eq_true, decide_eq_true_eq, Char.le_def,
      UInt32.le_iff_toNat_le] at digit
    change c.val.toNat ≤ 127
    rcases digit with (⟨-, le⟩ | ⟨-, le⟩) | ⟨-, le⟩
    all_goals exact le_trans le (by decide)
  have small : c.val ≤ 127 := UInt32.le_iff_toNat_le.mpr low
  simp [Char.utf8Size, small]

/-- A character of a text of digits is a byte of it. -/
theorem utf8ByteSize_of_isHexDigit {digits : List Char} (all : digits.all isHexDigit = true) :
    (String.ofList digits).utf8ByteSize = digits.length := by
  induction digits with
  | nil => rfl
  | cons c digits ih =>
    simp only [List.all_cons, Bool.and_eq_true] at all
    rw [String.ofList_cons, String.utf8ByteSize_append, String.utf8ByteSize_singleton,
      utf8Size_of_isHexDigit all.1, ih all.2, List.length_cons]
    omega

/-- A secret has 32 bytes. -/
theorem parseSecretHex_length {s : String} {secret : Secret}
    (parsed : parseSecretHex s = .ok secret) : secret.length = 32 := by
  rw [parseSecretHex] at parsed
  split at parsed
  next => cases parsed
  next accepted =>
    obtain ⟨size, digits⟩ := not_or.mp accepted
    have all := utf8ByteSize_of_isHexDigit (not_not.mp digits)
    rw [String.ofList_toList, not_not.mp size] at all
    rw [← Except.ok.inj parsed]
    exact bytesOfHex_length all.symm

/-! ### What a node accepts -/

section Verify

variable {lib : TokenLib} {Signed : String → Secret → FsClaims → Prop}

theorem mint_signed (lawful : lib.Lawful Signed) {sub fileId : String} {act : Action}
    {kid : String} {secret : Secret} {ttlSecs : Option Nat} {now : Nat} {token : String}
    (minted : mint lib sub fileId act kid secret ttlSecs now = .ok token) :
    Signed token secret ⟨sub, fileId, act.text, now + ttlSecs.getD defaultTtlSecs⟩ := by
  rw [mint] at minted
  split at minted
  next encoded =>
    cases minted
    exact lawful.encode encoded
  next => cases minted

/-- Any of the secrets will do, since they read the same claims. -/
theorem verify_ok_iff (lawful : lib.Lawful Signed) {token fileId : String} {act : Action}
    {decoded now : Nat} (later : decoded ≤ now) {secrets : List Secret} {claims : FsClaims} :
    verify lib token fileId act decoded now secrets = .ok claims ↔
      (∃ secret ∈ secrets, Signed token secret claims) ∧
        now ≤ claims.exp ∧ claims.fileId = fileId ∧ claims.act = act.text := by
  induction secrets with
  | nil => simp [verify]
  | cons secret secrets ih =>
    rw [verify]
    cases read : lib.decode token secret decoded with
    | error e =>
      -- a token that is good at `now` was not out of date before
      have unsigned : now ≤ claims.exp → ¬ Signed token secret claims := by
        intro fresh signed
        have := lawful.decode.mpr ⟨signed, later.trans fresh⟩
        rw [read] at this
        cases this
      simp only [ih, List.exists_mem_cons_iff]
      tauto
    | ok found =>
      obtain ⟨signed, -⟩ := lawful.decode.mp read
      have same : (∃ secret' ∈ secret :: secrets, Signed token secret' claims) ↔ found = claims :=
        ⟨fun ⟨_, _, other⟩ => lawful.payload signed other,
          fun same => ⟨secret, List.mem_cons_self, same ▸ signed⟩⟩
      rw [same]
      grind

theorem verify_error {token fileId : String} {act : Action} {decoded now : Nat}
    {secrets : List Secret} {e : FsError}
    (refused : verify lib token fileId act decoded now secrets = .error e) : e = .forbidden := by
  induction secrets with
  | nil => exact (Except.error.inj refused).symm
  | cons secret secrets ih =>
    rw [verify] at refused
    grind

end Verify

/-! ### Fleets -/

/-- A secret as an operator writes it into a config. -/
structure SecretText where
  hex : String
  bytes : Secret
  parsed : parseSecretHex hex = .ok bytes

/-- The secrets that the nodes of a fleet go through. No secret comes back. -/
structure Rollout where
  secrets : List SecretText
  fresh : (secrets.map (·.bytes)).Nodup

namespace Rollout

variable {r : Rollout}

abbrev Generation (r : Rollout) := Fin r.secrets.length

def secret (r : Rollout) (g : r.Generation) : SecretText := r.secrets.get g

/-- The config of a generation: the secret of the one before, if there is one, still verifies. -/
def config (r : Rollout) (g : r.Generation) : CapabilityConfig where
  secret := some (r.secret g).hex
  previousSecret :=
    if older : 0 < g.val then some (r.secret ⟨g.val - 1, by omega⟩).hex else none

/-- Tokens of one generation are good for another. -/
def Generation.Serves (minted verifies : r.Generation) : Prop :=
  verifies = minted ∨ verifies.val = minted.val + 1

theorem secret_inj {g g' : r.Generation} (same : (r.secret g).bytes = (r.secret g').bytes) :
    g = g' := by
  have inj := List.nodup_iff_injective_get.mp r.fresh
  have := @inj ⟨g.val, by simp⟩ ⟨g'.val, by simp⟩ (by simpa [secret] using same)
  exact Fin.ext (by simpa using this)

theorem resolve_config (lib : TokenLib) (random : Secret) (g : r.Generation) :
    resolveTokenKeys lib random (r.config g) = .ok
      ⟨.of lib (r.secret g).bytes,
        if older : 0 < g.val then some (.of lib (r.secret ⟨g.val - 1, by omega⟩).bytes)
        else none⟩ := by
  by_cases older : 0 < g.val
  · simp only [resolveTokenKeys, config, TokenKeys.fromHex, dif_pos older, (r.secret _).parsed]
    rfl
  · simp only [resolveTokenKeys, config, TokenKeys.fromHex, dif_neg older, (r.secret g).parsed]
    rfl

/-- The keys of a generation verify under the secrets that are one deployment old at most. -/
theorem mem_secrets_iff {lib : TokenLib} {random : Secret} {g : r.Generation} {keys : TokenKeys}
    (resolved : resolveTokenKeys lib random (r.config g) = .ok keys) (secret : Secret) :
    secret ∈ keys.secrets ↔
      ∃ minted : r.Generation, minted.Serves g ∧ (r.secret minted).bytes = secret := by
  rw [resolve_config] at resolved
  obtain rfl := Except.ok.inj resolved
  simp only [TokenKeys.secrets, TokenKey.of, List.mem_cons]
  constructor
  · intro known
    cases known with
    | inl current => exact ⟨g, .inl rfl, current.symm⟩
    | inr previous =>
      split at previous
      next older =>
        have same : secret = (r.secret ⟨g.val - 1, by omega⟩).bytes := by simpa using previous
        exact ⟨_, .inr (by simp only; omega), same.symm⟩
      next first => simp at previous
  · rintro ⟨minted, rfl | next, rfl⟩
    · simp
    · have older : 0 < g.val := by omega
      have before : minted = ⟨g.val - 1, by omega⟩ := Fin.ext (by simp only; omega)
      simp [older, ← before]

theorem current_secret {lib : TokenLib} {random : Secret} {g : r.Generation} {keys : TokenKeys}
    (resolved : resolveTokenKeys lib random (r.config g) = .ok keys) :
    keys.current.secret = (r.secret g).bytes := by
  rw [resolve_config] at resolved
  obtain rfl := Except.ok.inj resolved
  rfl

end Rollout

/-- The time, and the generation that each node runs. -/
structure Fleet (r : Rollout) where
  clock : Nat
  generation : Nat → r.Generation

/-- A token that a node has handed out. -/
structure Minting (r : Rollout) where
  node : Nat
  generation : r.Generation
  sub : String
  fileId : String
  act : Action
  token : String
  time : Nat

inductive FleetEvent (r : Rollout) where
  | minted (m : Minting r)
  | verified (node : Nat) (token fileId : String) (act : Action) (now : Nat)
      (result : Except FsError Unit)
  | deployed (node : Nat)
  | passed

section Runs

variable (lib : TokenLib) (Signed : String → Secret → FsClaims → Prop) {r : Rollout}

/-- Nobody but the nodes signs under their secrets. -/
def Unforged (past : List (FleetEvent r)) (token : String) : Prop :=
  ∀ g claims, Signed token (r.secret g).bytes claims →
    ∃ m, .minted m ∈ past ∧ m.token = token ∧ (r.secret m.generation).bytes = (r.secret g).bytes

/-- One step of the fleet after `past`. -/
inductive Fleet.Step (past : List (FleetEvent r)) (s : Fleet r) : FleetEvent r → Fleet r → Prop
  | mint {m : Minting r} {random : Secret} {keys : TokenKeys}
      (running : s.generation m.node = m.generation)
      (resolved : resolveTokenKeys lib random (r.config m.generation) = .ok keys)
      (time : m.time = s.clock)
      (token : keys.mint lib m.sub m.fileId m.act m.time = .ok m.token) :
      Step past s (.minted m) s
  | verify {node : Nat} {random : Secret} {keys : TokenKeys} {token fileId : String}
      {act : Action} {now : Nat}
      (resolved : resolveTokenKeys lib random (r.config (s.generation node)) = .ok keys)
      (later : s.clock ≤ now) (unforged : Unforged Signed past token) :
      Step past s (.verified node token fileId act now
        (keys.verify lib token fileId act s.clock now)) { s with clock := now }
  | deploy {node : Nat} {next : r.Generation} (after : next.val = (s.generation node).val + 1) :
      Step past s (.deployed node) { s with generation := Function.update s.generation node next }
  | pass {now : Nat} (later : s.clock ≤ now) : Step past s .passed { s with clock := now }

/-- The fleet comes from `s` to the last state with these events. -/
inductive Fleet.Run (s : Fleet r) : List (FleetEvent r) → Fleet r → Prop
  | start : Run s [] s
  | step {past t e u} (run : Run s past t) (step : Fleet.Step lib Signed past t e u) :
      Run s (past ++ [e]) u

end Runs

/-- A node of the same generation or the one before minted the token for the file and the action,
    five minutes before `now` at most. -/
def Honoured {r : Rollout} (past : List (FleetEvent r)) (verifies : r.Generation)
    (token fileId : String) (act : Action) (now : Nat) : Prop :=
  ∃ m, .minted m ∈ past ∧ m.token = token ∧ m.fileId = fileId ∧ m.act = act ∧
    now ≤ m.time + 300 ∧ m.generation.Serves verifies

section Invariant

variable {lib : TokenLib} {Signed : String → Secret → FsClaims → Prop} {r : Rollout}
  {past : List (FleetEvent r)} {s t u : Fleet r}

def Minting.claims (m : Minting r) : FsClaims := ⟨m.sub, m.fileId, m.act.text, m.time + 300⟩

/-- What a node hands out carries its claims, under the secret of its generation. -/
theorem signed_of_minted (lawful : lib.Lawful Signed) (run : Fleet.Run lib Signed s past t)
    {m : Minting r} (minted : .minted m ∈ past) :
    Signed m.token (r.secret m.generation).bytes m.claims := by
  induction run with
  | start => simp at minted
  | @step past t e u run step ih =>
    rcases List.mem_append.mp minted with old | new
    · exact ih old
    · obtain rfl := List.mem_singleton.mp new
      cases step with
      | mint running resolved time token =>
        rw [← Rollout.current_secret resolved]
        exact mint_signed lawful token

theorem Action.text_inj {act act' : Action} (same : act.text = act'.text) : act = act' := by
  cases act <;> cases act' <;> simp_all [Action.text]

/-- What a node accepts under its keys. -/
theorem accepts_iff (lawful : lib.Lawful Signed) (run : Fleet.Run lib Signed s past t)
    {g : r.Generation} {random : Secret} {keys : TokenKeys} {token fileId : String} {act : Action}
    {decoded now : Nat} (resolved : resolveTokenKeys lib random (r.config g) = .ok keys)
    (later : decoded ≤ now) (unforged : Unforged Signed past token) :
    (∃ claims, verify lib token fileId act decoded now keys.secrets = .ok claims) ↔
      Honoured past g token fileId act now := by
  simp only [verify_ok_iff lawful later]
  constructor
  · rintro ⟨claims, ⟨secret, known, signed⟩, fresh, file, action⟩
    -- a secret of the node is that of some generation, so the token was minted under it
    obtain ⟨g', serves, rfl⟩ := (Rollout.mem_secrets_iff resolved secret).mp known
    obtain ⟨m, minted, rfl, same⟩ := unforged g' claims signed
    obtain rfl := Rollout.secret_inj same
    obtain rfl := lawful.payload signed (signed_of_minted lawful run minted)
    exact ⟨m, minted, rfl, file, Action.text_inj action, fresh, serves⟩
  · rintro ⟨m, minted, rfl, rfl, rfl, fresh, serves⟩
    exact ⟨m.claims, ⟨_, (Rollout.mem_secrets_iff resolved _).mpr ⟨_, serves, rfl⟩,
      signed_of_minted lawful run minted⟩, fresh, rfl, rfl⟩

/-- **Tokens across a rollout**. In every run a node honours a token for a file and an action
    exactly when a node of its own generation, or of the one before, minted it for them at most
    five minutes ago; any other token it refuses as forbidden. -/
theorem honoured_iff (lawful : lib.Lawful Signed) (run : Fleet.Run lib Signed s past t)
    {node now : Nat} {token fileId : String} {act : Action} {result : Except FsError Unit}
    (step : Fleet.Step lib Signed past t (.verified node token fileId act now result) u) :
    (result = .ok () ↔ Honoured past (t.generation node) token fileId act now) ∧
      (result = .error .forbidden ↔ ¬ Honoured past (t.generation node) token fileId act now) := by
  cases step with
  | verify resolved later unforged =>
    rw [← accepts_iff lawful run resolved later unforged, TokenKeys.verify]
    cases found : verify lib token fileId act t.clock now _ with
    | ok claims => simp [Except.map]
    | error e => simp [Except.map, verify_error found]

end Invariant

/-! ### One rollout -/

namespace Sample

def old : SecretText where
  hex := "abababababababababababababababababababababababababababababababab"
  bytes := List.replicate 32 0xab
  parsed := by decide +kernel

def new : SecretText where
  hex := "CDcdcdcdcdcdcdcdcdcdcdcdcdcdcdcdcdcdcdcdcdcdcdcdcdcdcdcdcdcdcdcd"
  bytes := List.replicate 32 0xcd
  parsed := by decide +kernel

def rollout : Rollout := ⟨[old, new], by decide⟩

def claims : FsClaims := ⟨"alice", "file1", "read", 1700000300⟩

def token : String :=
  "eyJ0eXAiOiJKV1QiLCJhbGciOiJIUzI1NiIsImtpZCI6IjlhMmRiMmUyIn0." ++
  "eyJzdWIiOiJhbGljZSIsImZpbGVfaWQiOiJmaWxlMSIsImFjdCI6InJlYWQiLCJleHAiOjE3MDAwMDAzMDB9." ++
  "ON2mZ8Gytk4raE9cgjkguelFsNsE3aJCYVXSgijpQFE"

/-- The library on that token and these secrets, and on no others. -/
def lib : TokenLib where
  sha256 secret :=
    if secret = new.bytes then [121, 105, 236, 15, 203, 139, 100, 141, 253, 226, 75, 29, 10, 226, 69,
      104, 211, 152, 220, 195, 168, 59, 128, 168, 80, 249, 115, 35, 140, 223, 211, 217]
    else [154, 45, 178, 226, 63, 21, 4, 205, 5, 102, 6, 85, 58, 192, 73, 197, 231, 24, 232, 249, 206,
      146, 51, 135, 109, 241, 167, 161, 130, 26, 248, 133]
  encode kid read secret :=
    if kid = some "9a2db2e2" ∧ read = claims ∧ secret = old.bytes then .ok token
    else .error "InvalidKeyFormat"
  decode text secret now :=
    if text ≠ token then .error "InvalidToken"
    else if secret ≠ old.bytes then .error "InvalidSignature"
    else if claims.exp < now then .error "ExpiredSignature"
    else .ok claims

def Signed (text : String) (secret : Secret) (read : FsClaims) : Prop :=
  text = token ∧ secret = old.bytes ∧ read = claims

theorem lib_lawful : lib.Lawful Signed where
  encode := by
    intro kid read secret text encoded
    simp only [lib] at encoded
    split at encoded
    next sample => exact ⟨(Except.ok.inj encoded).symm, sample.2.2, sample.2.1⟩
    next => cases encoded
  decode := by
    intro text secret now read
    simp only [lib, Signed]
    grind
  payload := fun first second => first.2.2.trans second.2.2.symm

def first : rollout.Generation := ⟨0, by decide⟩

def second : rollout.Generation := ⟨1, by decide⟩

def minting : Minting rollout := ⟨0, first, "alice", "file1", .read, token, 1700000000⟩

/-- Two nodes of the first generation. -/
def fleet : Fleet rollout := ⟨1700000000, fun _ => first⟩

/-- One of them is deployed, after the other has handed out the token. -/
def deployed : Fleet rollout := ⟨1700000000, Function.update (fun _ => first) 1 second⟩

theorem rollout_run : Fleet.Run lib Signed fleet [.minted minting, .deployed 1] deployed :=
  .step (.step .start (.mint rfl (Rollout.resolve_config lib [] first) rfl
    (by rfl))) (.deploy rfl)

def secondKeys : TokenKeys := ⟨.of lib new.bytes, some (.of lib old.bytes)⟩

theorem secondKeys_resolved :
    resolveTokenKeys lib [] (rollout.config (deployed.generation 1)) = .ok secondKeys :=
  Rollout.resolve_config lib [] second

theorem secondKeys_verify :
    secondKeys.verify lib token "file1" .read 1700000000 1700000300 = .ok () := by
  have stale : lib.decode token new.bytes 1700000000 = .error "InvalidSignature" := by
    simp [lib, show new.bytes ≠ old.bytes by decide]
  have good : lib.decode token old.bytes 1700000000 = .ok claims := by
    simp [lib, claims]
  simp [TokenKeys.verify, TokenKeys.secrets, secondKeys, TokenKey.of, verify, stale, good, claims,
    Action.text, Except.map]

end Sample

open Sample in
/-- The node with the new secret honours a token that was minted under the old one, in the last
    second. -/
theorem honoured_iff_rotated :
    Honoured [.minted minting, .deployed 1] (deployed.generation 1) token "file1" .read
      1700000300 := by
  have step : Fleet.Step lib Signed [.minted minting, .deployed 1] deployed
      (.verified 1 token "file1" .read 1700000300
        (secondKeys.verify lib token "file1" .read 1700000000 1700000300)) _ :=
    .verify secondKeys_resolved (by decide) fun g claims signed =>
      ⟨minting, by simp, rfl, signed.2.1.symm⟩
  exact (honoured_iff lib_lawful rollout_run step).1.mp secondKeys_verify

end Capability

end RustApi
