import RustApi.Auth.Token

/-!
# The tenant gate

`JwtClaimsMiddleware` in front of the handlers, and `OidcClient::exchange_code` and
`refresh_token` behind the login routes. Each derives the issuer it expects from the
token itself, on its own path.

## Main result

`tenant_gate`: on all three paths only a signed payload of an allowed tenant passes,
and no other token reaches a handler.
-/

namespace RustApi.Auth

open Lib

/-! ### The JWT library -/

/-- `jsonwebtoken::Algorithm`. -/
inductive Algorithm where
  | hs256 | hs384 | hs512 | es256 | es384 | rs256 | rs384 | rs512 | ps256 | ps384 | ps512 | edDSA
  deriving DecidableEq, Repr

/-- `jsonwebtoken::Header`, what is read of it. -/
structure Header where
  kid : Option String
  deriving DecidableEq, Repr

/-- `jsonwebtoken::Validation`, what is set of it. -/
structure Validation where
  algorithms : List Algorithm
  audience : List String
  issuer : Option (List String)
  deriving DecidableEq, Repr

/-- `jsonwebtoken`, with keys of type `Key` and claims of type `C`. -/
structure JwtLib (Key C : Type) where
  decodeHeader : String → Except String Header
  decode : String → Key → Validation → Except String C
  verifies : Key → Algorithm → String → String → Prop

/-- What the library documents. `issuerOf` is the field `iss` of the claims. -/
structure JwtLib.Documented {Key C : Type} (lib : JwtLib Key C) (codec : Codec)
    (issuerOf : C → String) : Prop where
  header_segments : ∀ {token header}, lib.decodeHeader token = .ok header →
    ∃ head payload signature, Segments token head payload signature
  decode_signed : ∀ {token key validation claims}, lib.decode token key validation = .ok claims →
    ∃ value, SignedPayload codec
      (fun message signature => ∃ alg ∈ validation.algorithms,
        lib.verifies key alg message signature) token value ∧
      value.text "iss" = some (issuerOf claims)
  decode_issuer : ∀ {token key validation claims}, lib.decode token key validation = .ok claims →
    ∀ issuers, validation.issuer = some issuers → issuerOf claims ∈ issuers

/-- `SigningKey`. -/
structure SigningKey (Key : Type) where
  decodingKey : Key
  algorithm : Algorithm

/-- `JwksKeys`: the cached keys, and the keys that are cached after the refresh that a miss
    brings about. -/
structure JwksKeys (Key : Type) where
  cached : List (String × SigningKey Key)
  refreshed : List (String × SigningKey Key)

namespace JwksKeys

variable {Key : Type}

def lookup : Option String → List (String × SigningKey Key) → Option (SigningKey Key)
  | some id, keys => keys.lookup id
  | none, [(_, key)] => some key
  | none, _ => none

def get (keys : JwksKeys Key) (kid : Option String) : Option (SigningKey Key) :=
  match lookup kid keys.cached with
  | some key => some key
  | none => lookup kid keys.refreshed

/-- The signature verifies under a key of the store. -/
def Verifies {C : Type} (keys : JwksKeys Key) (lib : JwtLib Key C) (message signature : String) :
    Prop :=
  ∃ kid key, keys.get kid = some key ∧ lib.verifies key.decodingKey key.algorithm message signature

end JwksKeys

/-! ### The middleware -/

inductive ApiError where
  | invalidCredentials (reason : String)
  | handler (text : String)
  deriving DecidableEq, Repr

/-- A request: the bearer token and the claims of its extensions, and the session cookie. -/
structure Request (C : Type) where
  bearer : Option String
  cookie : Option String
  claims : Option C
  deriving DecidableEq, Repr

/-- The token that is chosen. A header wins over the cookie. -/
def Request.token {C : Type} (req : Request C) : Option String := req.bearer.or req.cookie

/-- A response with its `Set-Cookie` headers. -/
structure Response where
  setCookies : List String
  deriving DecidableEq, Repr

structure JwtClaimsMiddleware (Key : Type) where
  keys : JwksKeys Key
  validation : Validation
  issuerTemplate : Option IssuerTemplate

namespace JwtClaimsMiddleware

variable {Key C : Type}

/-- `new_with_jks`, with the keys that were fetched. -/
def newWithJks (keys : JwksKeys Key) (audience issuer : String) : JwtClaimsMiddleware Key where
  keys := keys
  validation := ⟨[.rs256], [audience],
    if (IssuerTemplate.parse issuer []).isNone then some [issuer] else none⟩
  issuerTemplate := IssuerTemplate.parse issuer []

def withAllowedTenants (mw : JwtClaimsMiddleware Key) (allowed : List String) :
    JwtClaimsMiddleware Key :=
  { mw with issuerTemplate := mw.issuerTemplate.map ({ · with allowedTenants := allowed }) }

variable (lib : JwtLib Key C) (codec : Codec) (mw : JwtClaimsMiddleware Key)

/-- The validation for a token under a key: pinned to the key's algorithm, and to the issuer that
    a template resolves to for the tenant of the token. -/
def validationFor (key : SigningKey Key) (token : String) :
    Except (String × Bool) Validation := do
  let validation := { mw.validation with algorithms := [key.algorithm] }
  match mw.issuerTemplate with
  | none => pure validation
  | some template =>
    match (extractUnverifiedClaim codec token "tid").filter (· ≠ "") with
    | none => .error ("token has no tenant identifier", true)
    | some tenantId =>
      match template.resolveChecked tenantId with
      | .error cause => .error (cause, true)
      | .ok expected => pure { validation with issuer := some [expected] }

/-- The check of a token. The flag of an error says that it is a hard one. -/
def authenticate (token : String) : Except (String × Bool) C :=
  match lib.decodeHeader token with
  | .error e => .error ("undecodable header: " ++ e, true)
  | .ok header =>
    match mw.keys.get header.kid with
    | none => .error ("no signing key matches kid", true)
    | some key =>
      match mw.validationFor codec key token with
      | .error e => .error e
      | .ok validation =>
        match lib.decode token key.decodingKey validation with
        | .error e => .error ("token failed validation: " ++ e, false)
        | .ok claims => .ok claims

/-- The first half of `call`: the request that goes on to the handler, and why its credential was
    unusable. -/
def forward (req : Request C) : Except ApiError (Request C × Option String) :=
  match req.token with
  | none => .ok (req, none)
  | some token =>
    match mw.authenticate lib codec token with
    | .ok claims => .ok ({ req with claims := some claims }, none)
    | .error (reason, true) => .error (.invalidCredentials reason)
    | .error (reason, false) => .ok (req, some reason)

/-- The handler has set a session cookie of its own. -/
def handlerSetSession (resp : Response) : Bool :=
  resp.setCookies.any fun v =>
    Text.startsWith "auth_token=" v && !Text.startsWith "auth_token=;" v

/-- `call`, with the wrapped service `svc`. -/
def call (svc : Request C → Except ApiError Response) (req : Request C) :
    Except ApiError Response := do
  let (req', unusable) ← mw.forward lib codec req
  let resp ← svc req'
  let chosenFromCookie := req.bearer.isNone && req.cookie.isSome
  let clearsSession := unusable.isSome && chosenFromCookie
  if clearsSession && !handlerSetSession resp then
    pure ⟨resp.setCookies ++ ["auth_token=; Path=/; Max-Age=0; HttpOnly; SameSite=Lax"]⟩
  else pure resp

end JwtClaimsMiddleware

/-! ### The OIDC client -/

/-- `OidcError`, of the token calls. -/
inductive OidcError where
  | configuration (text : String)
  | exchangeFailure (text : String)
  | missingIdToken
  | invalidToken (text : String)
  deriving DecidableEq, Repr

structure TokenResponse (IdToken : Type) where
  idToken : Option IdToken
  refreshToken : Option String

/-- `openidconnect`: the requests to the provider, and the verifier of the client. -/
structure OidcLib (IdToken Nonce Req : Type) where
  exchangeCode : String → Except String Req
  exchangeRefreshToken : String → Except String Req
  requestAsync : Req → Option String → Except String (TokenResponse IdToken)
  claims : IdToken → Bool → Option Nonce → Except String Unit
  toString : IdToken → String
  verifies : String → String → Prop

/-- What the library documents: it takes a token of three segments that is signed by a key of the
    provider, and its claims type has an issuer. -/
structure OidcLib.Documented {IdToken Nonce Req : Type} (lib : OidcLib IdToken Nonce Req)
    (codec : Codec) : Prop where
  claims_signed : ∀ {idToken requireIssuerMatch nonce},
    lib.claims idToken requireIssuerMatch nonce = .ok () →
    ∃ value, SignedPayload codec lib.verifies (lib.toString idToken) value ∧
      (value.text "iss").isSome

/-- `OidcClient`, what the token calls read of it. -/
structure OidcClient where
  issuerTemplate : Option IssuerTemplate
  deriving DecidableEq, Repr

namespace OidcClient

/-- `new`, from the discovered issuer on. -/
def new (rawIssuer : String) (allowed : List String) : Except OidcError OidcClient :=
  match IssuerTemplate.parse rawIssuer allowed with
  | none => .ok ⟨none⟩
  | some template =>
    if template.allowedTenants.isEmpty then
      .error (.configuration ("issuer \"" ++ rawIssuer ++ "\" is a multi-tenant template but no " ++
        "allowed tenants are configured; set [authorization].allowed_tenants"))
    else .ok ⟨some template⟩

section Calls

variable {IdToken Nonce Req : Type} (lib : OidcLib IdToken Nonce Req) (codec : Codec)
  (client : OidcClient)

/-- The checks of a returned ID token. Without a `nonce` the nonce verifier takes any. -/
def checkIdToken (idToken : IdToken) (nonce : Option Nonce) : Except OidcError Unit :=
  match client.issuerTemplate with
  | none => (lib.claims idToken true nonce).mapError .invalidToken
  | some template =>
    match lib.claims idToken false nonce with
    | .error e => .error (.invalidToken e)
    | .ok () =>
      let raw := lib.toString idToken
      match (extractUnverifiedClaim codec raw "tid").filter (· ≠ "") with
      | none => .error (.invalidToken "token missing tenant identifier")
      | some tenantId =>
        match template.resolveChecked tenantId with
        | .error cause => .error (.invalidToken cause)
        | .ok expected =>
          if extractUnverifiedClaim codec raw "iss" ≠ some expected then
            .error (.invalidToken ("token issuer does not match tenant `" ++ tenantId ++ "`"))
          else .ok ()

/-- A token call: the answer to the request, its ID token and the checks of it. -/
def tokenCall (request : Except String Req) (pkce : Option String) (nonce : Option Nonce) :
    Except OidcError (String × Option String) := do
  let request ← request.mapError .configuration
  let response ← (lib.requestAsync request pkce).mapError .exchangeFailure
  match response.idToken with
  | none => .error .missingIdToken
  | some idToken =>
    client.checkIdToken lib codec idToken nonce
    pure (lib.toString idToken, response.refreshToken)

def exchangeCode (code : String) (nonce : Nonce) (pkceVerifier : String) :
    Except OidcError (String × Option String) :=
  client.tokenCall lib codec (lib.exchangeCode code) (some pkceVerifier) (some nonce)

def refreshToken (refresh : String) : Except OidcError (String × Option String) :=
  client.tokenCall lib codec (lib.exchangeRefreshToken refresh) none none

variable {lib codec client} {r : Req} {pkce refresh : Option String} {nonce : Option Nonce}
  {idToken : IdToken}

/-- Without a template the check is the library's. -/
theorem checkIdToken_plain (claims : lib.claims idToken true nonce = .ok ()) :
    checkIdToken lib codec ⟨none⟩ idToken nonce = .ok () := by
  simp only [checkIdToken, claims]
  rfl

/-- A token of an allowed tenant passes. -/
theorem checkIdToken_ok {template : IssuerTemplate} {tid issuer : String}
    (claims : lib.claims idToken false nonce = .ok ())
    (tenant : (extractUnverifiedClaim codec (lib.toString idToken) "tid").filter (· ≠ "") = some tid)
    (resolved : template.resolveChecked tid = .ok issuer)
    (iss : extractUnverifiedClaim codec (lib.toString idToken) "iss" = some issuer) :
    checkIdToken lib codec ⟨some template⟩ idToken nonce = .ok () := by
  simp only [checkIdToken, claims, tenant, resolved, iss, ne_eq, not_true_eq_false, if_false]

theorem tokenCall_ok (answered : lib.requestAsync r pkce = .ok ⟨some idToken, refresh⟩)
    (checked : client.checkIdToken lib codec idToken nonce = .ok ()) :
    client.tokenCall lib codec (.ok r) pkce nonce = .ok (lib.toString idToken, refresh) := by
  simp only [tokenCall, Except.mapError, answered, checked, bind, Except.bind]
  rfl

end Calls

end OidcClient

/-! ### The middleware keeps the gate -/

namespace JwtClaimsMiddleware

variable {Key C : Type} {lib : JwtLib Key C} {codec : Codec} {issuerOf : C → String}
  {mw : JwtClaimsMiddleware Key} {template : IssuerTemplate}

theorem issuerTemplate_of_parse {issuer : String} {allowed : List String}
    (parsed : IssuerTemplate.parse issuer allowed = some template) (keys : JwksKeys Key)
    (audience : String) :
    ((newWithJks keys audience issuer).withAllowedTenants allowed).issuerTemplate =
      some template := by
  obtain ⟨⟨a, b⟩, cut, eq⟩ := Option.bind_eq_some_iff.mp parsed
  obtain rfl := Option.some.inj eq
  simp [withAllowedTenants, newWithJks, IssuerTemplate.parse, cut]

/-- The validation for a token of an allowed tenant. -/
theorem validationFor_eq (templated : mw.issuerTemplate = some template) {key : SigningKey Key}
    {token tid issuer : String}
    (tenant : (extractUnverifiedClaim codec token "tid").filter (· ≠ "") = some tid)
    (resolved : template.resolveChecked tid = .ok issuer) :
    mw.validationFor codec key token =
      .ok { mw.validation with algorithms := [key.algorithm], issuer := some [issuer] } := by
  simp only [validationFor, templated, tenant, resolved]
  rfl

/-- The claims of a token that passes go on to the handler. -/
theorem forward_ok {req : Request C} {token : String} {header : Header} {key : SigningKey Key}
    {validation : Validation} {claims : C} (chosen : req.token = some token)
    (header_ok : lib.decodeHeader token = .ok header) (known : mw.keys.get header.kid = some key)
    (made : mw.validationFor codec key token = .ok validation)
    (decoded : lib.decode token key.decodingKey validation = .ok claims) :
    mw.forward lib codec req = .ok ({ req with claims := some claims }, none) := by
  simp [forward, chosen, authenticate, header_ok, known, made, decoded]

/-- A validation is only made for a tenant of the allowlist, and it pins the issuer. -/
theorem validationFor_ok (templated : mw.issuerTemplate = some template) {key : SigningKey Key}
    {token : String} {validation : Validation}
    (made : mw.validationFor codec key token = .ok validation) :
    ∃ tid, extractUnverifiedClaim codec token "tid" = some tid ∧ tid ≠ "" ∧
      tid ∈ template.allowedTenants ∧ validation.algorithms = [key.algorithm] ∧
      validation.issuer = some [template.resolve tid] := by
  simp only [validationFor, templated] at made
  split at made
  next => cases made
  next tid found =>
    obtain ⟨extracted, nonempty⟩ := Option.filter_eq_some_iff.mp found
    split at made
    next => cases made
    next expected resolved =>
      obtain ⟨allowed, rfl⟩ := IssuerTemplate.resolveChecked_ok resolved
      obtain rfl := Except.ok.inj made
      exact ⟨tid, extracted, by simpa using nonempty, allowed, rfl, rfl⟩

/-- Accepted claims are those of an admitted token. -/
theorem admitted_of_authenticate (documented : lib.Documented codec issuerOf)
    (templated : mw.issuerTemplate = some template) {token : String} {claims : C}
    (accepted : mw.authenticate lib codec token = .ok claims) :
    Admitted codec (mw.keys.Verifies lib) template token := by
  rw [authenticate] at accepted
  split at accepted
  next => cases accepted
  next header _ =>
    split at accepted
    next => cases accepted
    next key found =>
      split at accepted
      next => cases accepted
      next validation made =>
        split at accepted
        next => cases accepted
        next claims' decoded =>
          obtain ⟨tid, extracted, nonempty, allowed, algorithms, pinned⟩ :=
            validationFor_ok templated made
          obtain ⟨value, signed, issued⟩ := documented.decode_signed decoded
          have same := documented.decode_issuer decoded _ pinned
          -- Both parsers read the middle segment, so the tenant is the signed one.
          rw [extract_of_payload signed.payload] at extracted
          obtain ⟨head, payload, signature, bytes, segments, verified, read⟩ := signed
          refine ⟨value, tid, ⟨head, payload, signature, bytes, segments, ?_, read⟩, extracted,
            nonempty, allowed, ?_⟩
          · obtain ⟨alg, mem, verified⟩ := verified
            rw [algorithms, List.mem_singleton] at mem
            subst mem
            exact ⟨_, key, found, verified⟩
          · rw [issued, List.mem_singleton.mp same]
            rfl

/-- Without an allowed tenant the check ends in a hard error. -/
theorem authenticate_hard (documented : lib.Documented codec issuerOf)
    (templated : mw.issuerTemplate = some template) {token : String}
    (foreign : ¬ FromTenant codec template token) :
    ∃ reason, mw.authenticate lib codec token = .error (reason, true) := by
  rw [authenticate]
  split
  next e _ => exact ⟨_, rfl⟩
  next header decoded =>
    split
    next => exact ⟨_, rfl⟩
    next key _ =>
      obtain ⟨head, payload, signature, segments⟩ := documented.header_segments decoded
      simp only [validationFor, templated]
      cases found : (extractUnverifiedClaim codec token "tid").filter (· ≠ "") with
      | none => exact ⟨_, rfl⟩
      | some tid =>
        cases resolved : template.resolveChecked tid with
        | error cause => exact ⟨cause, by simp [resolved]⟩
        | ok expected =>
          obtain ⟨extracted, nonempty⟩ := Option.filter_eq_some_iff.mp found
          obtain ⟨value, read, named⟩ := payload_of_extract segments extracted
          exact absurd ⟨value, tid, read, named, by simpa using nonempty,
            (IssuerTemplate.resolveChecked_ok resolved).1⟩ foreign

/-- Claims are inserted for an admitted token only. -/
theorem admitted_of_forward (documented : lib.Documented codec issuerOf)
    (templated : mw.issuerTemplate = some template) {req req' : Request C}
    {unusable : Option String} (forwarded : mw.forward lib codec req = .ok (req', unusable)) :
    req'.claims = req.claims ∨ ∃ token, req.token = some token ∧
      Admitted codec (mw.keys.Verifies lib) template token := by
  rw [forward] at forwarded
  split at forwarded
  next =>
    cases forwarded
    exact .inl rfl
  next token chosen =>
    split at forwarded
    next accepted =>
      exact .inr ⟨token, chosen, admitted_of_authenticate documented templated accepted⟩
    next => cases forwarded
    next =>
      cases forwarded
      exact .inl rfl

/-- A rejected request is answered without the wrapped service. -/
theorem call_rejected {req : Request C} {e : ApiError}
    (rejected : mw.forward lib codec req = .error e) (svc : Request C → Except ApiError Response) :
    mw.call lib codec svc req = .error e := by
  rw [call, rejected]
  rfl

theorem forward_hard (documented : lib.Documented codec issuerOf)
    (templated : mw.issuerTemplate = some template) {req : Request C} {token : String}
    (chosen : req.token = some token) (foreign : ¬ FromTenant codec template token) :
    ∃ reason, mw.forward lib codec req = .error (.invalidCredentials reason) := by
  obtain ⟨reason, hard⟩ := authenticate_hard documented templated foreign
  exact ⟨reason, by simp [forward, chosen, hard]⟩

end JwtClaimsMiddleware

/-! ### The client keeps the gate -/

namespace OidcClient

variable {IdToken Nonce Req : Type} {lib : OidcLib IdToken Nonce Req} {codec : Codec}
  {client : OidcClient} {template : IssuerTemplate}

theorem issuerTemplate_of_new {issuer : String} {allowed : List String}
    (parsed : IssuerTemplate.parse issuer allowed = some template)
    (made : new issuer allowed = .ok client) : client.issuerTemplate = some template := by
  simp only [new, parsed] at made
  split at made
  next => cases made
  next => rw [← Except.ok.inj made]

theorem admitted_of_checkIdToken (documented : lib.Documented codec)
    (templated : client.issuerTemplate = some template) {idToken : IdToken} {nonce : Option Nonce}
    (passed : client.checkIdToken lib codec idToken nonce = .ok ()) :
    Admitted codec lib.verifies template (lib.toString idToken) := by
  simp only [checkIdToken, templated] at passed
  split at passed
  next => cases passed
  next verified =>
    obtain ⟨value, signed, -⟩ := documented.claims_signed verified
    simp only [extract_of_payload signed.payload] at passed
    split at passed
    next => cases passed
    next tid found =>
      obtain ⟨named, nonempty⟩ := Option.filter_eq_some_iff.mp found
      split at passed
      next => cases passed
      next expected resolved =>
        obtain ⟨allowed, rfl⟩ := IssuerTemplate.resolveChecked_ok resolved
        split at passed
        next => cases passed
        next same =>
          exact ⟨value, tid, signed, named, by simpa using nonempty, allowed, not_not.mp same⟩

/-- A token call returns the token that was checked. -/
theorem admitted_of_tokenCall (documented : lib.Documented codec)
    (templated : client.issuerTemplate = some template) {request : Except String Req}
    {pkce : Option String} {nonce : Option Nonce} {raw : String} {refresh : Option String}
    (returned : client.tokenCall lib codec request pkce nonce = .ok (raw, refresh)) :
    Admitted codec lib.verifies template raw := by
  rw [tokenCall] at returned
  cases request with
  | error e => cases returned
  | ok request =>
    cases answer : lib.requestAsync request pkce with
    | error e =>
      change (((lib.requestAsync request pkce).mapError OidcError.exchangeFailure).bind _) = _
        at returned
      rw [answer] at returned
      cases returned
    | ok response =>
      change (((lib.requestAsync request pkce).mapError OidcError.exchangeFailure).bind _) = _
        at returned
      rw [answer] at returned
      change (match response.idToken with | none => _ | some idToken => _) = _ at returned
      split at returned
      next => cases returned
      next idToken _ =>
        cases passed : client.checkIdToken lib codec idToken nonce with
        | error e =>
          rw [passed] at returned
          cases returned
        | ok u =>
          rw [passed] at returned
          cases returned
          exact admitted_of_checkIdToken documented templated passed

end OidcClient

/-! ### The gate on all paths -/

/-- What the gate of a templated issuer keeps, for the middleware and for the client that are
    configured with `issuer` and `allowed`. -/
structure TenantGate {Key C IdToken Nonce Req : Type} (lib : JwtLib Key C)
    (oidc : OidcLib IdToken Nonce Req) (codec : Codec) (issuer : String) (allowed : List String)
    (template : IssuerTemplate) (mw : JwtClaimsMiddleware Key) : Prop where
  inserted : ∀ {req req' unusable}, mw.forward lib codec req = .ok (req', unusable) →
    req'.claims = req.claims ∨ ∃ token, req.token = some token ∧
      Admitted codec (mw.keys.Verifies lib) template token
  exchanged : ∀ {client}, OidcClient.new issuer allowed = .ok client →
    ∀ {code nonce pkceVerifier raw refresh},
      client.exchangeCode oidc codec code nonce pkceVerifier = .ok (raw, refresh) →
        Admitted codec oidc.verifies template raw
  refreshed : ∀ {client}, OidcClient.new issuer allowed = .ok client →
    ∀ {token raw refresh}, client.refreshToken oidc codec token = .ok (raw, refresh) →
      Admitted codec oidc.verifies template raw
  rejected : ∀ {req : Request C} {token}, req.token = some token →
    ¬ FromTenant codec template token →
      ∃ reason, ∀ svc, mw.call lib codec svc req = .error (.invalidCredentials reason)

/-- **Tenant gate**: for every templated issuer and every allowlist, the empty one included. -/
theorem tenant_gate {Key C IdToken Nonce Req : Type} {lib : JwtLib Key C}
    {oidc : OidcLib IdToken Nonce Req} {codec : Codec} {issuerOf : C → String}
    (jwtDocumented : lib.Documented codec issuerOf) (oidcDocumented : oidc.Documented codec)
    {issuer : String} {allowed : List String} {template : IssuerTemplate}
    (parsed : IssuerTemplate.parse issuer allowed = some template) (keys : JwksKeys Key)
    (audience : String) :
    TenantGate lib oidc codec issuer allowed template
      ((JwtClaimsMiddleware.newWithJks keys audience issuer).withAllowedTenants allowed) := by
  have middleware := JwtClaimsMiddleware.issuerTemplate_of_parse parsed keys audience
  constructor
  · exact JwtClaimsMiddleware.admitted_of_forward jwtDocumented middleware
  · intro client discovered code nonce pkceVerifier raw refresh
    exact OidcClient.admitted_of_tokenCall oidcDocumented
      (OidcClient.issuerTemplate_of_new parsed discovered)
  · intro client discovered token raw refresh
    exact OidcClient.admitted_of_tokenCall oidcDocumented
      (OidcClient.issuerTemplate_of_new parsed discovered)
  · intro req token chosen foreign
    obtain ⟨reason, hard⟩ :=
      JwtClaimsMiddleware.forward_hard jwtDocumented middleware chosen foreign
    exact ⟨reason, JwtClaimsMiddleware.call_rejected hard⟩

/-! ### A token of an allowed tenant -/

namespace Sample

def head : String := "eyJhbGciOiJSUzI1NiIsImtpZCI6ImsxIn0"

/-- The encoding of `text`. -/
def payload : String :=
  "eyJpc3MiOiJodHRwczovL2lkcC90MS92MiIsInN1YiI6ImFsaWNlIiwiYXVkIjoiYXBwIiwiZXhwIjoxNzAwMDAz" ++
    "NjAwLCJpYXQiOjE3MDAwMDAwMDAsIm5vbmNlIjoibjAiLCJ0aWQiOiJ0MSJ9"

/-- The modulus of an RSA key with the exponent 65537. -/
def modulus : String :=
  "5G00yRa_QD8U2h9088WNRpDpdO9RHxQbmQo4npdQFgagtUhmdh99HokLEB-R36ixXgL7Q38R27WYUoZkBxHxWXGf" ++
    "YjrgOp4OAib16FeuCgQ57zaNScbBdimnqYtvu2RW1b02AQJwkDCnifWqacFqhuQ9HWRKAZwVOJVnsNvwtPWPl_l1" ++
    "36NjBxQuWm1q9W8IFFdzpdQC-6IuPeTB4ybHT_vpaQD_X5AVz15PIwP_h_t_TQLftbUvTHP8kEE2gZ436YuRy7yN" ++
    "zOBzAUdC0Cg5iIc3cwQEmYDe8RyRZFVbOqS2w5qhPp8QJNOfhPPFp764vfARhxT-GNXkvbKycpuvaw"

/-- Made with that key. -/
def signature : String :=
  "N0u6FltmoiolLbko4cCSSDtuKvAOWRG9Q3j6oEI-uzPFpfsucw1LlUUDtSNbjQduRUsOmSEeCOFasqpBLwD88Vim" ++
    "L47jLworuKzqey69RyZRye97GQo0BZr9NFRTuRia-IZIs_L1qR8sqIX_zrfL_qjcrhLqGJpU5WtIZMbRtVZmmcXO" ++
    "RgrKf6vBdZ3fEIBvifMDNva16KuDceGkz-v1pJBu7rppYIOU60rbXqMbUyVd0E1yKBMQ7M3TvwmYIMDWj-KY1Qhu" ++
    "cu_qKMm2UzUaoL62RIEbwmNVN6FzfkYbEixnM9lLWYPJAu8M6tEF_Mt8vp2Y-6uFLfg4nHqp3khapw"

def token : String := head ++ "." ++ payload ++ "." ++ signature

def tenantIssuer : String := "https://idp/t1/v2"

def text : List UInt8 :=
  ("\x7b\"iss\":\"https://idp/t1/v2\",\"sub\":\"alice\",\"aud\":\"app\",\"exp\":1700003600," ++
    "\"iat\":1700000000,\"nonce\":\"n0\",\"tid\":\"t1\"\x7d").toUTF8.toList

def value : Json :=
  .object [("iss", .string tenantIssuer), ("sub", .string "alice"), ("aud", .string "app"),
    ("exp", .number "1700003600"), ("iat", .number "1700000000"), ("nonce", .string "n0"),
    ("tid", .string "t1")]

/-- The engine and the reader on this payload. -/
def codec : Codec where
  decodeBase64 s := if s = payload then some text else none
  fromSlice bytes := if bytes = text then some value else none

/-- A library that knows this token, before it runs out; its claims are the issuer. -/
def lib : JwtLib String String where
  decodeHeader t := if t = token then .ok ⟨some "k1"⟩ else .error "InvalidToken"
  decode t key validation :=
    if t = token ∧ key = modulus ∧ .rs256 ∈ validation.algorithms ∧ "app" ∈ validation.audience ∧
        (validation.issuer.getD [tenantIssuer]).contains tenantIssuer then
      .ok tenantIssuer
    else .error "InvalidToken"
  verifies key alg message s :=
    key = modulus ∧ alg = .rs256 ∧ message = head ++ "." ++ payload ∧ s = signature

/-- The library of a client with the discovered issuer `configured`, before the token runs out. -/
def oidc (configured : String) : OidcLib String String String where
  exchangeCode code := .ok code
  exchangeRefreshToken code := .ok code
  requestAsync _ _ := .ok ⟨some token, some "renewal"⟩
  claims t requireIssuerMatch nonce :=
    if t = token ∧ (requireIssuerMatch = true → configured = tenantIssuer) ∧
        nonce.all (· = "n0") then .ok ()
    else .error "InvalidToken"
  toString t := t
  verifies message s := message = head ++ "." ++ payload ∧ s = signature

def keys : JwksKeys String := ⟨[("k1", ⟨modulus, .rs256⟩)], []⟩

/-- The letters are looked through piece by piece. -/
theorem segments : Segments token head payload signature where
  header_free := Text.free_ofList (by decide)
  payload_free := (Text.free_ofList (by decide)).append (Text.free_ofList (by decide))
  signature_free := ((((Text.free_ofList (by decide)).append (Text.free_ofList (by decide))).append
    (Text.free_ofList (by decide))).append (Text.free_ofList (by decide)))
  token_eq := rfl

theorem signed {verifies : String → String → Prop}
    (holds : verifies (head ++ "." ++ payload) signature) :
    SignedPayload codec verifies token value :=
  ⟨head, payload, signature, text, segments, holds, by simp [codec], by simp [codec]⟩

theorem lib_documented : lib.Documented codec id where
  header_segments := by
    intro t header decoded
    simp only [lib] at decoded
    split at decoded
    next same => exact ⟨_, _, _, same ▸ segments⟩
    next => cases decoded
  decode_signed := by
    intro t key validation claims decoded
    simp only [lib] at decoded
    split at decoded
    next known =>
      -- the one token that it decodes is the one that was signed
      obtain ⟨rfl, rfl, pinned, -, -⟩ := known
      cases decoded
      exact ⟨value, signed ⟨_, pinned, rfl, rfl, rfl, rfl⟩, rfl⟩
    next => cases decoded
  decode_issuer := by
    intro t key validation claims decoded issuers set
    simp only [lib, set] at decoded
    split at decoded
    next known =>
      cases decoded
      simpa using known.2.2.2.2
    next => cases decoded

theorem oidc_documented (configured : String) : (oidc configured).Documented codec where
  claims_signed := by
    intro t requireIssuerMatch nonce accepted
    simp only [oidc] at accepted
    split at accepted
    next known =>
      obtain ⟨rfl, -, -⟩ := known
      exact ⟨value, signed ⟨rfl, rfl⟩, rfl⟩
    next => cases accepted

def issuer : String := "https://idp/\x7btenantid\x7d/v2"

def template : IssuerTemplate := ⟨"https://idp/", "/v2", ["t1"]⟩

def middleware : JwtClaimsMiddleware String :=
  (JwtClaimsMiddleware.newWithJks keys "app" issuer).withAllowedTenants ["t1"]

/-- What the splitter reads of the token. -/
theorem extract_token (field : String) :
    extractUnverifiedClaim codec token field = value.text field :=
  extract_of_payload (@signed (fun _ _ => True) trivial).payload field

theorem tenant_token : (extractUnverifiedClaim codec token "tid").filter (· ≠ "") = some "t1" := by
  rw [extract_token]
  rfl

theorem template_resolves : template.resolveChecked "t1" = .ok tenantIssuer := rfl

theorem parse_issuer : IssuerTemplate.parse issuer ["t1"] = some template := rfl

theorem forward_token : middleware.forward lib codec ⟨some token, none, none⟩ =
    .ok (⟨some token, none, some tenantIssuer⟩, none) := by
  have templated : middleware.issuerTemplate = some template :=
    JwtClaimsMiddleware.issuerTemplate_of_parse parse_issuer keys "app"
  have key : middleware.keys.get (some "k1") = some ⟨modulus, .rs256⟩ := rfl
  have header : lib.decodeHeader token = .ok ⟨some "k1"⟩ := by simp [lib]
  have decoded : lib.decode token modulus ⟨[.rs256], ["app"], some [tenantIssuer]⟩ =
      .ok tenantIssuer := by simp [lib]
  exact JwtClaimsMiddleware.forward_ok rfl header key
    (JwtClaimsMiddleware.validationFor_eq templated tenant_token template_resolves) decoded

theorem exchange_token : OidcClient.exchangeCode (oidc issuer) codec ⟨some template⟩ "code" "n0"
    "pkce" = .ok (token, some "renewal") := by
  have claims : (oidc issuer).claims token false (some "n0") = .ok () := by simp [oidc]
  have iss : extractUnverifiedClaim codec token "iss" = some tenantIssuer := by
    rw [extract_token]
    rfl
  exact OidcClient.tokenCall_ok rfl
    (OidcClient.checkIdToken_ok claims tenant_token template_resolves iss)

/-- The middleware inserts the claims of the token, the client returns it, and a token of no
    tenant is refused. -/
theorem gate_admits :
    (∃ req' unusable, middleware.forward lib codec ⟨some token, none, none⟩ = .ok (req', unusable) ∧
      req'.claims = some tenantIssuer) ∧
    Admitted codec (keys.Verifies lib) template token ∧
    Admitted codec (oidc issuer).verifies template token ∧
    ∃ reason, ∀ svc, middleware.call lib codec svc ⟨some "e30", none, none⟩ =
      .error (.invalidCredentials reason) := by
  have gate : TenantGate lib (oidc issuer) codec issuer ["t1"] template middleware :=
    tenant_gate lib_documented (oidc_documented issuer) parse_issuer keys "app"
  have client : OidcClient.new issuer ["t1"] = .ok ⟨some template⟩ := by
    rw [OidcClient.new, parse_issuer]
    rfl
  refine ⟨⟨_, _, forward_token, rfl⟩, ?_, gate.exchanged client exchange_token, ?_⟩
  · rcases gate.inserted forward_token with same | ⟨t, chosen, admitted⟩
    · cases same
    · cases chosen
      exact admitted
  · -- the last token has one segment, so it is no token of a tenant
    refine gate.rejected rfl ?_
    rintro ⟨_, _, ⟨h, p, s, _, segments, _⟩, _⟩
    have parts := segments.split
    have one : Text.split '.' "e30" = ["e30"] := by decide +kernel
    rw [one] at parts
    cases parts

end Sample

end RustApi.Auth
