import RustApi.Lib.Text

/-!
# Tokens and issuers

The payload of a JWT as `extract_unverified_claim` reads it, the issuer template of a
multi-tenant provider, and what the JWT libraries promise of the tokens they accept.
The libraries, the base64 engine and the JSON reader are parameters.

## Main result

`extract_of_payload`: for a token of three segments the home-made splitter reads the
payload that the libraries read.
-/

namespace RustApi.Auth

open Lib

/-! ### Payloads -/

/-- `serde_json::Value`. The names in an object are distinct, as in its map. -/
inductive Json where
  | null
  | bool (b : Bool)
  | number (text : String)
  | string (s : String)
  | array (items : List Json)
  | object (fields : List (String × Json))

namespace Json

def get (field : String) : Json → Option Json
  | .object fields => fields.lookup field
  | _ => none

def asStr : Json → Option String
  | .string s => some s
  | _ => none

/-- A top-level field that is a string. -/
def text (v : Json) (field : String) : Option String := do
  let member ← v.get field
  member.asStr

end Json

/-- The engine `URL_SAFE_NO_PAD` and `serde_json::from_slice`. -/
structure Codec where
  decodeBase64 : String → Option (List UInt8)
  fromSlice : List UInt8 → Option Json

def extractUnverifiedClaim (codec : Codec) (token field : String) : Option String := do
  let payload ← (Text.split '.' token)[1]?
  let bytes ← codec.decodeBase64 payload
  let value ← codec.fromSlice bytes
  value.text field

/-- A token of three segments. -/
structure Segments (token header payload signature : String) : Prop where
  header_free : Text.Free '.' header
  payload_free : Text.Free '.' payload
  signature_free : Text.Free '.' signature
  token_eq : token = header ++ "." ++ payload ++ "." ++ signature

/-- The JSON value in the middle segment of a token of three segments. -/
def Payload (codec : Codec) (token : String) (value : Json) : Prop :=
  ∃ header payload signature bytes, Segments token header payload signature ∧
    codec.decodeBase64 payload = some bytes ∧ codec.fromSlice bytes = some value

/-- The payload of a token whose signature over the first two segments verifies. -/
def SignedPayload (codec : Codec) (verifies : String → String → Prop) (token : String)
    (value : Json) : Prop :=
  ∃ header payload signature bytes, Segments token header payload signature ∧
    verifies (header ++ "." ++ payload) signature ∧
    codec.decodeBase64 payload = some bytes ∧ codec.fromSlice bytes = some value

theorem SignedPayload.payload {codec : Codec} {verifies : String → String → Prop} {token : String}
    {value : Json} (signed : SignedPayload codec verifies token value) :
    Payload codec token value := by
  obtain ⟨header, payload, signature, bytes, segments, -, decoded, parsed⟩ := signed
  exact ⟨header, payload, signature, bytes, segments, decoded, parsed⟩

/-- The splitter finds the three segments. -/
theorem Segments.split {token header payload signature : String}
    (segments : Segments token header payload signature) :
    Text.split '.' token = [header, payload, signature] := by
  have token_eq : token =
      header ++ String.singleton '.' ++ (payload ++ String.singleton '.' ++ signature) := by
    rw [segments.token_eq, ← String.append_assoc, ← String.append_assoc]
    rfl
  rw [token_eq, Text.split_append segments.header_free, Text.split_append segments.payload_free,
    Text.split_of_free segments.signature_free]

theorem extract_of_segments {codec : Codec} {token header payload signature : String}
    (segments : Segments token header payload signature) (field : String) :
    extractUnverifiedClaim codec token field =
      (codec.decodeBase64 payload).bind fun bytes =>
        (codec.fromSlice bytes).bind fun value => value.text field := by
  rw [extractUnverifiedClaim, segments.split]
  rfl

/-- The home-made splitter reads the payload of the libraries. -/
theorem extract_of_payload {codec : Codec} {token : String} {value : Json}
    (payload : Payload codec token value) (field : String) :
    extractUnverifiedClaim codec token field = value.text field := by
  obtain ⟨header, payload, signature, bytes, segments, decoded, parsed⟩ := payload
  simp [extract_of_segments segments, decoded, parsed]

/-- What it reads of a token of three segments is in the payload. -/
theorem payload_of_extract {codec : Codec} {token header payload signature field text : String}
    (segments : Segments token header payload signature)
    (extracted : extractUnverifiedClaim codec token field = some text) :
    ∃ value, Payload codec token value ∧ value.text field = some text := by
  rw [extract_of_segments segments] at extracted
  obtain ⟨bytes, decoded, extracted⟩ := Option.bind_eq_some_iff.mp extracted
  obtain ⟨value, parsed, found⟩ := Option.bind_eq_some_iff.mp extracted
  exact ⟨value, ⟨header, payload, signature, bytes, segments, decoded, parsed⟩, found⟩

/-- A token has at most one payload. -/
theorem Payload.unique {codec : Codec} {token : String} {value value' : Json}
    (payload : Payload codec token value) (payload' : Payload codec token value') :
    value = value' := by
  obtain ⟨h, p, s, bytes, segments, decoded, parsed⟩ := payload
  obtain ⟨h', p', s', bytes', segments', decoded', parsed'⟩ := payload'
  have parts := segments.split.symm.trans segments'.split
  obtain rfl : p = p' := by simp_all
  obtain rfl := Option.some.inj (decoded.symm.trans decoded')
  exact Option.some.inj (parsed.symm.trans parsed')

/-! ### Issuers -/

/-- `TENANT_PLACEHOLDER`. -/
def tenantPlaceholder : String := "\x7btenantid\x7d"

/-- `IssuerTemplate`. -/
structure IssuerTemplate where
  issuerPrefix : String
  issuerSuffix : String
  allowedTenants : List String
  deriving DecidableEq, Repr

namespace IssuerTemplate

def parse (issuer : String) (allowedTenants : List String) : Option IssuerTemplate := do
  let (issuerPrefix, issuerSuffix) ← Text.cutOnce tenantPlaceholder issuer
  some ⟨issuerPrefix, issuerSuffix, allowedTenants⟩

def resolve (t : IssuerTemplate) (tenantId : String) : String :=
  t.issuerPrefix ++ tenantId ++ t.issuerSuffix

def resolveChecked (t : IssuerTemplate) (tenantId : String) : Except String String :=
  if t.allowedTenants.any (· == tenantId) then .ok (t.resolve tenantId)
  else .error ("tenant `" ++ tenantId ++ "` is not in the configured allowlist")

theorem resolveChecked_ok {t : IssuerTemplate} {tenantId issuer : String}
    (resolved : t.resolveChecked tenantId = .ok issuer) :
    tenantId ∈ t.allowedTenants ∧ issuer = t.resolve tenantId := by
  rw [resolveChecked] at resolved
  split at resolved
  next allowed =>
    refine ⟨?_, (Except.ok.inj resolved).symm⟩
    simpa using allowed
  next => cases resolved

/-- A template is cut out of the issuer, with the allowlist beside it. -/
theorem parse_eq {issuer : String} {allowed : List String} {t : IssuerTemplate}
    (parsed : parse issuer allowed = some t) :
    issuer = t.issuerPrefix ++ tenantPlaceholder ++ t.issuerSuffix ∧
      t.allowedTenants = allowed := by
  obtain ⟨⟨a, b⟩, cut, eq⟩ := Option.bind_eq_some_iff.mp parsed
  obtain rfl := Option.some.inj eq
  exact ⟨Text.eq_of_cutOnce cut, rfl⟩

end IssuerTemplate

/-- The tenant gate: the signed payload names a tenant of the allowlist, and the issuer that the
    template resolves to for it. -/
def Admitted (codec : Codec) (verifies : String → String → Prop) (t : IssuerTemplate)
    (token : String) : Prop :=
  ∃ value tid, SignedPayload codec verifies token value ∧
    value.text "tid" = some tid ∧ tid ≠ "" ∧ tid ∈ t.allowedTenants ∧
    value.text "iss" = some (t.issuerPrefix ++ tid ++ t.issuerSuffix)

/-- The payload names a tenant of the allowlist. -/
def FromTenant (codec : Codec) (t : IssuerTemplate) (token : String) : Prop :=
  ∃ value tid, Payload codec token value ∧ value.text "tid" = some tid ∧ tid ≠ "" ∧
    tid ∈ t.allowedTenants

end RustApi.Auth
