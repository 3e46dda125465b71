import RustApi.Auth.Redirect
import RustApi.Auth.Tenant

/-!
# Logging in

The handlers under `/auth`, the cookies they set, and the browsers that keep them. A login
leaves three secrets in cookies of the browser; the callback takes a code only from a browser
that presents them, and a session is renewed with the refresh token that came with it.
Links lead a browser to the callback with any query, requests are under way for any time, and
the provider answers what it likes under the keys it signs with.

## Main results

- `session_descends`: a session in a browser goes back, over renewals with its own refresh
  tokens, to a callback of that browser that completed a login of that browser.
- `callback_stays`: the callback sends a browser nowhere but to a path of this site.
-/

namespace RustApi.Auth

open Lib

/-! ### Cookies and answers -/

/-- `SameSite`. -/
inductive SameSite where
  | strict
  | lax
  | none
  deriving DecidableEq, Repr

/-- A cookie as it is set. The age is in seconds. -/
structure Cookie where
  name : String
  value : String
  path : String
  httpOnly : Bool
  secure : Bool
  sameSite : SameSite
  maxAge : Int
  deriving DecidableEq, Repr

/-- The shape of all cookies of these routes. -/
def Cookie.build (secure : Bool) (name value : String) (maxAge : Int) : Cookie :=
  ⟨name, value, "/", true, secure, .lax, maxAge⟩

/-- `clear_cookie`. -/
def clearCookie (secure : Bool) (name : String) : Cookie := Cookie.build secure name "" 0

/-- `AuthResponse`. -/
structure AuthResponse where
  success : Bool
  token : Option String
  error : Option String
  deriving DecidableEq, Repr

/-- An answer under `/auth`. -/
structure AuthReply where
  status : Nat
  location : Option String
  cookies : List Cookie
  body : Option AuthResponse
  deriving DecidableEq, Repr

/-- `AuthUrlResponse`. -/
structure AuthUrlResponse where
  url : String
  csrfToken : String
  nonce : String
  pkceVerifier : String
  deriving DecidableEq, Repr

/-- `AuthCallbackQuery`. -/
structure AuthCallbackQuery where
  code : Option String
  state : Option String
  error : Option String
  deriving DecidableEq, Repr

/-- The cookies of a request, by name. -/
abbrev Cookies : Type := String → Option String

/-! ### The handlers -/

def minutes (n : Int) : Int := 60 * n

def days (n : Int) : Int := 24 * 60 * minutes n

section Handlers

variable (join : String → Option (String × Option String)) (secure : Bool)

/-- `login`, with the values that `get_auth_url` made. -/
def OidcRoute.login (auth : AuthUrlResponse) (returnTo : Option String) : AuthReply :=
  if returnTo.any fun value => !isValidReturnTo join value then
    ⟨400, none, [], some ⟨false, none, some "invalid return_to"⟩⟩
  else
    let base := fun name value => Cookie.build secure name value (minutes 5)
    ⟨302, some auth.url, [base "oidc_csrf" auth.csrfToken, base "oidc_nonce" auth.nonce,
      base "oidc_pkce" auth.pkceVerifier] ++ (returnTo.map (base "oidc_return_to")).toList, none⟩

/-- `clear_auth_flow_cookies`. -/
def clearAuthFlowCookies : List Cookie :=
  [clearCookie secure "oidc_csrf", clearCookie secure "oidc_nonce",
    clearCookie secure "oidc_pkce", clearCookie secure "oidc_return_to"]

def callbackFailure (status : Nat) (message code : String) (returnTo : Option String) :
    AuthReply :=
  match returnTo with
  | some returnTo =>
    ⟨302, some (redirectTarget returnTo (some code)), clearAuthFlowCookies secure, none⟩
  | none => ⟨status, none, clearAuthFlowCookies secure, some ⟨false, none, some message⟩⟩

/-- The cookies of a session. -/
def sessionCookies (token : String) (refreshToken : Option String) : List Cookie :=
  Cookie.build secure "auth_token" token (days 7) ::
    (refreshToken.map fun value => Cookie.build secure "refresh_token" value (days 30)).toList

/-- The status, message and code of a failed exchange. -/
def OidcError.outcome : OidcError → Nat × String × String
  | .exchangeFailure _ | .missingIdToken | .invalidToken _ =>
    (401, "authentication failed", "authentication_failed")
  | .configuration _ => (500, "internal server error", "internal_error")

variable {IdToken Req : Type} (lib : OidcLib IdToken String Req) (codec : Codec)
  (client : OidcClient)

def OidcRoute.callback (query : AuthCallbackQuery) (cookies : Cookies) : AuthReply :=
  let returnTo := (cookies "oidc_return_to").filter (isValidReturnTo join)
  match query.error with
  | some providerError =>
    if providerError = "access_denied" then
      callbackFailure secure 403 "access denied" "access_denied" returnTo
    else callbackFailure secure 401 "authentication failed" "authentication_failed" returnTo
  | none =>
    match cookies "oidc_csrf", cookies "oidc_nonce", cookies "oidc_pkce" with
    | some csrf, some nonce, some pkce =>
      match query.code, query.state with
      | some code, some state =>
        if state ≠ csrf then
          callbackFailure secure 401 "Invalid state parameter" "invalid_state" returnTo
        else
          match client.exchangeCode lib codec code nonce pkce with
          | .ok (token, refreshToken) =>
            let set := clearAuthFlowCookies secure ++ sessionCookies secure token refreshToken
            match returnTo with
            | some returnTo => ⟨302, some returnTo, set, none⟩
            | none => ⟨200, none, set, some ⟨true, some token, none⟩⟩
          | .error e =>
            let (status, message, code) := e.outcome
            callbackFailure secure status message code returnTo
      | _, _ =>
        callbackFailure secure 401 "authentication failed" "authentication_failed" returnTo
    | _, _, _ =>
      callbackFailure secure 400 "Session expired or security cookies missing"
        "security_cookies_missing" returnTo

def OidcRoute.refresh (cookies : Cookies) : AuthReply :=
  match cookies "refresh_token" with
  | none => ⟨401, none, [], some ⟨false, none, some "missing refresh token"⟩⟩
  | some value =>
    match client.refreshToken lib codec value with
    | .ok (token, refreshToken) =>
      ⟨200, none, sessionCookies secure token refreshToken, some ⟨true, some token, none⟩⟩
    | .error _ => ⟨401, none, [], some ⟨false, none, some "authentication failed"⟩⟩

/-- `logout`. The revocation that it starts does not show in the answer. -/
def OidcRoute.logout : AuthReply :=
  ⟨204, none, [clearCookie secure "auth_token", clearCookie secure "refresh_token"], none⟩

/-- A route that a browser requests. -/
inductive AuthRoute where
  | callback (query : AuthCallbackQuery)
  | refresh
  | logout
  deriving DecidableEq, Repr

def AuthRoute.reply (route : AuthRoute) (cookies : Cookies) : AuthReply :=
  match route with
  | .callback query => OidcRoute.callback join secure lib codec client query cookies
  | .refresh => OidcRoute.refresh secure lib codec client cookies
  | .logout => OidcRoute.logout secure

end Handlers

/-! ### What the handlers set -/

section Set

variable {join : String → Option (String × Option String)} {secure : Bool} {IdToken Req : Type}
  {lib : OidcLib IdToken String Req} {codec : Codec} {client : OidcClient}

/-- The code of a callback was exchanged: for the state, the nonce and the verifier that the
    browser presented. -/
structure Exchanged (lib : OidcLib IdToken String Req) (codec : Codec) (client : OidcClient)
    (query : AuthCallbackQuery) (cookies : Cookies) (token : String)
    (refreshToken : Option String) : Prop where
  noError : query.error = none
  exchanged : ∃ code csrf nonce pkce, query.code = some code ∧ query.state = some csrf ∧
    cookies "oidc_csrf" = some csrf ∧ cookies "oidc_nonce" = some nonce ∧
    cookies "oidc_pkce" = some pkce ∧
    client.exchangeCode lib codec code nonce pkce = .ok (token, refreshToken)

theorem callbackFailure_cookies (status : Nat) (message code : String)
    (returnTo : Option String) :
    (callbackFailure secure status message code returnTo).cookies = clearAuthFlowCookies secure := by
  cases returnTo <;> rfl

/-- The callback clears the cookies of the login, whatever comes of it, and sets a session for a
    code that it exchanged. -/
theorem callback_cookies (query : AuthCallbackQuery) (cookies : Cookies) :
    (OidcRoute.callback join secure lib codec client query cookies).cookies = clearAuthFlowCookies secure ∨
    ∃ token refreshToken, Exchanged lib codec client query cookies token refreshToken ∧
      (OidcRoute.callback join secure lib codec client query cookies).cookies =
        clearAuthFlowCookies secure ++ sessionCookies secure token refreshToken := by
  unfold OidcRoute.callback
  dsimp only
  split
  next providerError _ =>
    split
    · exact .inl (callbackFailure_cookies ..)
    · exact .inl (callbackFailure_cookies ..)
  next noError =>
    split
    next csrf nonce pkce hasCsrf hasNonce hasPkce =>
      split
      next code state hasCode hasState =>
        split
        · exact .inl (callbackFailure_cookies ..)
        next same =>
          split
          next token refreshToken exchanged =>
            obtain rfl := not_not.mp same
            refine .inr ⟨token, refreshToken, ⟨noError, code, state, nonce, pkce, hasCode, hasState,
              hasCsrf, hasNonce, hasPkce, exchanged⟩, ?_⟩
            split <;> rfl
          next e _ => exact .inl (callbackFailure_cookies ..)
      · exact .inl (callbackFailure_cookies ..)
    · exact .inl (callbackFailure_cookies ..)

end Set

/-! ### Where the callback sends a browser -/

/-- A browser that resolves the value stays on the site it is on: the value is a path, names no
    host, and holds nothing that a browser takes for a slash or drops. -/
structure StaysOnSite (value : String) : Prop where
  path : value.toList.head? = some '/'
  hostless : value.toList[1]? ≠ some '/'
  slashes : '\\' ∉ value.toList
  visible : ∀ c ∈ value.toList, 32 ≤ c.toNat ∧ (c.toNat < 127 ∨ 160 ≤ c.toNat)

theorem staysOnSite_of_valid {join : String → Option (String × Option String)} {value : String}
    (valid : isValidReturnTo join value = true) : StaysOnSite value := by
  unfold isValidReturnTo at valid
  split at valid
  next => cases valid
  next clear =>
    simp only [Bool.or_eq_true, Bool.not_eq_true', not_or, Bool.not_eq_true, Bool.not_eq_false,
      List.any_eq_false, Bool.and_eq_true, decide_eq_true_eq, not_and, not_lt,
      List.contains_eq_mem] at clear
    obtain ⟨⟨⟨⟨⟨path, host⟩, slashes⟩, -⟩, -⟩, controls⟩ := clear
    refine ⟨?_, ?_, slashes, fun c mem => ?_⟩
    · rw [Text.startsWith] at path
      cases chars : value.toList with
      | nil => simp [chars] at path
      | cons c cs =>
        simp only [chars] at path
        have same : '/' = c := by simpa using path
        rw [same]
        rfl
    · rw [Text.startsWith] at host path
      rcases chars : value.toList with _ | ⟨c, _ | ⟨c', cs⟩⟩
      · simp
      · simp
      · simp only [chars] at host path
        intro second
        have first : '/' = c := by simpa using path
        have second : c' = '/' := by simpa using second
        rw [← first, second] at host
        simp [List.isPrefixOf] at host
    · have known := controls c mem
      omega

/-- The error parameter goes between a path and its fragment. -/
theorem redirectTarget_inserts (returnTo code : String) : ∃ before added fragment : String,
    returnTo = before ++ fragment ∧ redirectTarget returnTo (some code) = before ++ added ++ fragment ∧
    fragment.toList.head? ≠ some '/' ∧
    (added = "" ∨ ∃ sign ∈ ["", "&", "?"], added = sign ++ "error=" ++ code) := by
  have hash : (tail '#' (fragmentOf returnTo)).toList.head? ≠ some '/' := by
    cases fragmentOf returnTo <;> simp [tail]
  have text : returnTo = (cut '#' returnTo).1 ++ tail '#' (fragmentOf returnTo) :=
    (cut_eq '#' returnTo).1
  have inserted (sign : String) (known : sign ∈ ["", "&", "?"])
      (target : redirectTarget returnTo (some code) =
        (cut '#' returnTo).1 ++ (sign ++ "error=" ++ code) ++ tail '#' (fragmentOf returnTo)) :=
    (⟨_, _, _, text, target, hash, .inr ⟨sign, known, rfl⟩⟩ : ∃ before added fragment : String,
      returnTo = before ++ fragment ∧
      redirectTarget returnTo (some code) = before ++ added ++ fragment ∧
      fragment.toList.head? ≠ some '/' ∧
      (added = "" ∨ ∃ sign ∈ ["", "&", "?"], added = sign ++ "error=" ++ code))
  rw [redirectTarget_eq] at inserted ⊢
  by_cases given : hasError (queryOf returnTo) = true
  · exact ⟨_, "", _, text, by simp [given], hash, .inl rfl⟩
  · simp only [given, Bool.false_eq_true, if_false] at inserted ⊢
    unfold withError at inserted ⊢
    split at inserted
    next ends => simpa [ends] using inserted "" (by simp) (by simp [String.append_assoc])
    next plain =>
      split at inserted
      next query =>
        simpa [plain, query] using inserted "&" (by simp) (by simp [← String.append_assoc])
      next query =>
        simpa [plain, query] using inserted "?" (by simp) (by simp [← String.append_assoc])

/-- What may stand in an error code. -/
def CodeChar (c : Char) : Prop := c ≠ '/' ∧ c ≠ '\\' ∧ 32 ≤ c.toNat ∧ c.toNat < 127

/-- Adding an error code to a path of this site leaves a path of this site. -/
theorem StaysOnSite.redirectTarget {returnTo code : String} (stays : StaysOnSite returnTo)
    (plain : ∀ c ∈ code.toList, CodeChar c) :
    StaysOnSite (redirectTarget returnTo (some code)) := by
  obtain ⟨before, added, fragment, rfl, target, noSlash, insertion⟩ :=
    redirectTarget_inserts returnTo code
  rw [target]
  have known : ∀ c ∈ added.toList, CodeChar c := by
    rcases insertion with rfl | ⟨sign, among, rfl⟩
    · simp
    · simp only [String.toList_append, List.forall_mem_append]
      refine ⟨⟨?_, by simp [CodeChar]⟩, plain⟩
      simp only [List.mem_cons, List.not_mem_nil, or_false] at among
      rcases among with rfl | rfl | rfl <;> simp [CodeChar]
  -- the first character is not of the fragment, which starts with a hash
  obtain ⟨first, more, front⟩ : ∃ first more, before.toList = first :: more := by
    rcases front : before.toList with _ | ⟨first, more⟩
    · have path := stays.path
      rw [String.toList_append, front] at path
      exact absurd path noSlash
    · exact ⟨first, more, rfl⟩
  have old : (before ++ fragment).toList = first :: (more ++ fragment.toList) := by
    simp [String.toList_append, front]
  have new : (before ++ added ++ fragment).toList =
      first :: (more ++ (added.toList ++ fragment.toList)) := by
    simp [String.toList_append, front]
  obtain ⟨path, hostless, slashes, visible⟩ := stays
  rw [old] at path hostless slashes visible
  constructor
  · rw [new]
    exact path
  · rw [new]
    cases more with
    | cons second rest => exact hostless
    | nil =>
      cases shown : added.toList with
      | nil => exact hostless
      | cons c cs => simpa using (known c (by simp [shown])).1
  · rw [new]
    simp only [List.mem_cons, List.mem_append, not_or] at slashes ⊢
    exact ⟨slashes.1, slashes.2.1, fun mem => (known _ mem).2.1 rfl, slashes.2.2⟩
  · intro c mem
    rw [new] at mem
    simp only [List.mem_cons, List.mem_append] at mem visible
    rcases mem with rfl | inFront | inAdded | inFragment
    · exact visible _ (.inl rfl)
    · exact visible c (.inr (.inl inFront))
    · exact ⟨(known c inAdded).2.2.1, .inl (known c inAdded).2.2.2⟩
    · exact visible c (.inr (.inr inFragment))

/-- The codes of a failed callback. -/
def callbackCodes : List String :=
  ["access_denied", "authentication_failed", "security_cookies_missing", "invalid_state",
    "internal_error"]

section Location

variable {join : String → Option (String × Option String)} {secure : Bool} {IdToken Req : Type}
  {lib : OidcLib IdToken String Req} {codec : Codec} {client : OidcClient}

theorem callbackFailure_location {status : Nat} {message code : String} {returnTo : Option String}
    {target : String}
    (sent : (callbackFailure secure status message code returnTo).location = some target) :
    ∃ value, returnTo = some value ∧ target = redirectTarget value (some code) := by
  cases returnTo with
  | none => cases sent
  | some value => exact ⟨value, rfl, (Option.some.inj sent).symm⟩

/-- A callback redirects to the path of the login, as it is or with one of the codes. -/
theorem callback_location {query : AuthCallbackQuery} {cookies : Cookies} {target : String}
    (sent : (OidcRoute.callback join secure lib codec client query cookies).location = some target) :
    ∃ value, isValidReturnTo join value = true ∧
      (target = value ∨ ∃ code ∈ callbackCodes, target = redirectTarget value (some code)) := by
  have failed : ∀ {status message code}, code ∈ callbackCodes →
      (callbackFailure secure status message code
        ((cookies "oidc_return_to").filter (isValidReturnTo join))).location = some target →
      ∃ value, isValidReturnTo join value = true ∧
        (target = value ∨ ∃ code ∈ callbackCodes, target = redirectTarget value (some code)) := by
    intro status message code known sent
    obtain ⟨value, kept, eq⟩ := callbackFailure_location sent
    exact ⟨value, (Option.filter_eq_some_iff.mp kept).2, .inr ⟨code, known, eq⟩⟩
  unfold OidcRoute.callback at sent
  dsimp only at sent
  split at sent
  next =>
    split at sent
    · exact failed (by simp [callbackCodes]) sent
    · exact failed (by simp [callbackCodes]) sent
  next =>
    split at sent
    next =>
      split at sent
      next =>
        split at sent
        · exact failed (by simp [callbackCodes]) sent
        next =>
          split at sent
          next token refreshToken _ =>
            split at sent
            next value kept =>
              exact ⟨value, (Option.filter_eq_some_iff.mp kept).2, .inl (Option.some.inj sent).symm⟩
            next => cases sent
          next e _ =>
            refine failed ?_ sent
            cases e <;> simp [callbackCodes, OidcError.outcome]
      · exact failed (by simp [callbackCodes]) sent
    · exact failed (by simp [callbackCodes]) sent

/-- **No open redirect**. Whatever cookies a browser presents and whatever query it was led to
    the callback with, the callback sends it to a path of this site, or nowhere. -/
theorem callback_stays (query : AuthCallbackQuery) (cookies : Cookies) : ∀ target,
    (OidcRoute.callback join secure lib codec client query cookies).location = some target →
      StaysOnSite target := by
  intro target sent
  obtain ⟨value, valid, rfl | ⟨code, known, rfl⟩⟩ := callback_location sent
  · exact staysOnSite_of_valid valid
  · apply (staysOnSite_of_valid valid).redirectTarget
    simp only [callbackCodes, List.mem_cons, List.not_mem_nil, or_false] at known
    rcases known with rfl | rfl | rfl | rfl | rfl <;> simp [CodeChar]

end Location

theorem callback_stays_missing : StaysOnSite "/notes?error=security_cookies_missing#top" :=
  callback_stays ⟨none, none, none⟩
    (fun name => if name = "oidc_return_to" then some "/notes#top" else none) _
    (show (OidcRoute.callback onSite true (Sample.oidc Sample.tenantIssuer) Sample.codec ⟨none⟩ ⟨none, none, none⟩
      fun name => if name = "oidc_return_to" then some "/notes#top" else none).location = _
      by decide +kernel)

/-! ### Browsers -/

/-- What a browser keeps: the value of a cookie, and when it expires. -/
abbrev Jar : Type := String → Option (String × Int)

/-- The cookies of an answer are taken in order. One without an age is dropped. -/
def Jar.take (now : Int) (jar : Jar) (cookies : List Cookie) : Jar :=
  cookies.foldl (fun jar c => Function.update jar c.name
    (if c.maxAge ≤ 0 then none else some (c.value, now + c.maxAge))) jar

/-- The cookies that go with a request. -/
def Jar.sent (now : Int) (jar : Jar) : Cookies := fun name =>
  match jar name with
  | some (value, expires) => if now < expires then some value else none
  | none => none

theorem Jar.sent_eq_some {now : Int} {jar : Jar} {name value : String}
    (sent : jar.sent now name = some value) :
    ∃ expires, jar name = some (value, expires) ∧ now < expires := by
  unfold Jar.sent at sent
  split at sent
  next v expires here =>
    split at sent
    next fresh => exact ⟨expires, by rw [here, Option.some.inj sent], fresh⟩
    next => cases sent
  next => cases sent

theorem Jar.take_append (now : Int) (jar : Jar) (first second : List Cookie) :
    jar.take now (first ++ second) = (jar.take now first).take now second :=
  List.foldl_append

/-- The three secrets of a login. -/
def flowNames : List String := ["oidc_csrf", "oidc_nonce", "oidc_pkce"]

/-- A login puts its three secrets into the jar, and maybe a path. -/
theorem Jar.take_login {join : String → Option (String × Option String)} {secure : Bool}
    {auth : AuthUrlResponse} {returnTo : Option String}
    (started : (OidcRoute.login join secure auth returnTo).status = 302) (now : Int) (jar : Jar) :
    let jar' := jar.take now (OidcRoute.login join secure auth returnTo).cookies
    jar' "oidc_csrf" = some (auth.csrfToken, now + minutes 5) ∧
    jar' "oidc_nonce" = some (auth.nonce, now + minutes 5) ∧
    jar' "oidc_pkce" = some (auth.pkceVerifier, now + minutes 5) ∧
    jar' "auth_token" = jar "auth_token" ∧ jar' "refresh_token" = jar "refresh_token" := by
  unfold OidcRoute.login at started ⊢
  split at started
  next => simp at started
  next valid =>
    rw [if_neg valid]
    cases returnTo <;> simp [Jar.take, Cookie.build, minutes]

/-- The callback's clearing leaves no secret of a login, and the session as it is. -/
theorem Jar.take_clear (secure : Bool) (now : Int) (jar : Jar) :
    let jar' := jar.take now (clearAuthFlowCookies secure)
    (∀ name ∈ flowNames, jar' name = none) ∧
    jar' "auth_token" = jar "auth_token" ∧ jar' "refresh_token" = jar "refresh_token" := by
  simp [Jar.take, clearAuthFlowCookies, clearCookie, Cookie.build, flowNames, Function.update_apply]

/-- The cookies of a session leave the secrets of a login alone. -/
theorem Jar.take_session (secure : Bool) (token : String) (refreshToken : Option String)
    (now : Int) (jar : Jar) :
    let jar' := jar.take now (sessionCookies secure token refreshToken)
    (∀ name ∈ flowNames, jar' name = jar name) ∧
    jar' "auth_token" = some (token, now + days 7) ∧
    jar' "refresh_token" = (refreshToken.map fun value => (value, now + days 30)).or
      (jar "refresh_token") := by
  cases refreshToken <;>
    simp [Jar.take, sessionCookies, Cookie.build, flowNames, days, minutes, Function.update_apply]

/-! ### Runs -/

/-- A request under way, with the cookies it left with. -/
structure AuthRequest where
  browser : Nat
  sentAt : Int
  route : AuthRoute
  cookies : Cookies

/-- The browsers of one deployment, and their requests by number. -/
structure Browsers where
  now : Int
  jars : Nat → Jar
  pending : Nat → Option AuthRequest

inductive LoginEvent where
  | login (browser : Nat) (time : Int) (auth : AuthUrlResponse)
  | replied (request : AuthRequest) (reply : AuthReply)
  | quiet

/-- What the library documents of a nonce: an ID token is only taken under the one it was signed
    with. -/
structure OidcLib.ChecksNonce {IdToken Req : Type} (lib : OidcLib IdToken String Req)
    (codec : Codec) : Prop where
  claims_nonce : ∀ {idToken requireIssuerMatch nonce},
    lib.claims idToken requireIssuerMatch (some nonce) = .ok () →
    ∃ value, SignedPayload codec lib.verifies (lib.toString idToken) value ∧
      value.text "nonce" = some nonce

section Runs

variable (join : String → Option (String × Option String)) (secure : Bool) {IdToken Req : Type}
  (Provider : OidcLib IdToken String Req → Prop) (codec : Codec) (client : OidcClient)

namespace Browsers

inductive Step (s : Browsers) : LoginEvent → Browsers → Prop
  | login (browser : Nat) (auth : AuthUrlResponse) (returnTo : Option String) :
      (OidcRoute.login join secure auth returnTo).status = 302 →
      Step s (.login browser s.now auth) { s with
        jars := Function.update s.jars browser
          ((s.jars browser).take s.now (OidcRoute.login join secure auth returnTo).cookies) }
  -- a link may lead a browser to any route with any query
  | follow (pid : Nat) (browser : Nat) (route : AuthRoute) :
      s.pending pid = none →
      Step s .quiet { s with
        pending := Function.update s.pending pid
          (some ⟨browser, s.now, route, (s.jars browser).sent s.now⟩) }
  -- the provider answers each time as it likes
  | respond (pid : Nat) (request : AuthRequest) (lib : OidcLib IdToken String Req)
      (reply : AuthReply) : s.pending pid = some request → Provider lib →
      reply = request.route.reply join secure lib codec client request.cookies →
      Step s (.replied request reply) { s with
        jars := Function.update s.jars request.browser
          ((s.jars request.browser).take s.now reply.cookies)
        pending := Function.update s.pending pid none }
  | lost (pid : Nat) : Step s .quiet { s with pending := Function.update s.pending pid none }
  -- the path to return to is no secret, and not relied on
  | plant (browser : Nat) (cookie : Option (String × Int)) :
      Step s .quiet { s with
        jars := Function.update s.jars browser
          (Function.update (s.jars browser) "oidc_return_to" cookie) }
  | tick (later : Int) : s.now ≤ later → Step s .quiet { s with now := later }

inductive Run (s : Browsers) : List LoginEvent → Browsers → Prop
  | start : Run s [] s
  | step {past : List LoginEvent} {t u : Browsers} {e : LoginEvent} :
      Run s past t → Step join secure Provider codec client t e u → Run s (past ++ [e]) u

end Browsers

/-- The reply to a callback set the cookies of a session. The callback was sent within five minutes
    of a login that its browser had begun, and presented the state of it; the code was exchanged with
    the verifier of the login for a token that is signed for the nonce of the login. -/
structure Completed (past : List LoginEvent) (request : AuthRequest) (reply : AuthReply)
    (token : String) (refreshToken : Option String) : Prop where
  completed : ∃ query code time auth lib, request.route = .callback query ∧
    .login request.browser time auth ∈ past ∧ time ≤ request.sentAt ∧
    request.sentAt < time + minutes 5 ∧ query.state = some auth.csrfToken ∧
    query.code = some code ∧ Provider lib ∧
    reply = OidcRoute.callback join secure lib codec client query request.cookies ∧
    client.exchangeCode lib codec code auth.nonce auth.pkceVerifier = .ok (token, refreshToken) ∧
    ∃ value, SignedPayload codec lib.verifies token value ∧ value.text "nonce" = some auth.nonce
  sets : sessionCookies secure token refreshToken <:+ reply.cookies

/-- The reply to a renewal set the cookies of a session, for the refresh token `value` that the
    request brought. -/
structure Renewed (request : AuthRequest) (reply : AuthReply) (value token : String)
    (refreshToken : Option String) : Prop where
  renewed : ∃ lib, request.route = .refresh ∧ request.cookies "refresh_token" = some value ∧
    Provider lib ∧ reply = OidcRoute.refresh secure lib codec client request.cookies ∧
    client.refreshToken lib codec value = .ok (token, refreshToken)
  sets : sessionCookies secure token refreshToken <:+ reply.cookies

/-- The sessions of a browser: what a callback completed, and what its own refresh tokens were
    later exchanged for. -/
inductive Session : List LoginEvent → Nat → String → Option String → Prop
  | completed {past : List LoginEvent} {request : AuthRequest} {reply : AuthReply} {token : String}
      {refreshToken : Option String} :
      Completed join secure Provider codec client past request reply token refreshToken →
      Session (past ++ [.replied request reply]) request.browser token refreshToken
  | renewed {past : List LoginEvent} {request : AuthRequest} {reply : AuthReply}
      {old value token : String} {refreshToken : Option String} :
      Session past request.browser old (some value) →
      Renewed secure Provider codec client request reply value token refreshToken →
      Session (past ++ [.replied request reply]) request.browser token refreshToken
  | later {past : List LoginEvent} {browser : Nat} {token : String} {refreshToken : Option String}
      (e : LoginEvent) : Session past browser token refreshToken →
      Session (past ++ [e]) browser token refreshToken

end Runs

/-! ### Sessions and their logins -/

section Descent

variable {join : String → Option (String × Option String)} {secure : Bool} {IdToken Req : Type}
  {Provider : OidcLib IdToken String Req → Prop} {codec : Codec} {client : OidcClient}

/-- A token call returns a token that it checked. -/
theorem OidcClient.checked_of_tokenCall {lib : OidcLib IdToken String Req}
    {request : Except String Req} {pkce nonce : Option String} {raw : String}
    {refreshToken : Option String}
    (returned : client.tokenCall lib codec request pkce nonce = .ok (raw, refreshToken)) :
    ∃ idToken, client.checkIdToken lib codec idToken nonce = .ok () ∧ lib.toString idToken = raw := by
  simp only [tokenCall, bind, Except.bind] at returned
  split at returned
  next => cases returned
  next request' _ =>
    split at returned
    next => cases returned
    next response _ =>
      split at returned
      next => cases returned
      next idToken _ =>
        split at returned
        next => cases returned
        next u passed =>
          cases returned
          exact ⟨idToken, passed, rfl⟩

/-- The library's own check is part of every check. -/
theorem OidcClient.claims_of_checkIdToken {lib : OidcLib IdToken String Req} {idToken : IdToken}
    {nonce : Option String} (passed : client.checkIdToken lib codec idToken nonce = .ok ()) :
    ∃ requireIssuerMatch, lib.claims idToken requireIssuerMatch nonce = .ok () := by
  rw [checkIdToken] at passed
  split at passed
  next =>
    cases checked : lib.claims idToken true nonce with
    | ok u => exact ⟨true, checked⟩
    | error e => simp [checked, Except.mapError] at passed
  next template _ =>
    cases checked : lib.claims idToken false nonce with
    | ok u => exact ⟨false, checked⟩
    | error e => simp [checked] at passed

/-- The token of an exchange is signed for the nonce it was exchanged with. -/
theorem OidcLib.ChecksNonce.exchanged {lib : OidcLib IdToken String Req}
    (checks : lib.ChecksNonce codec) {code nonce pkce token : String}
    {refreshToken : Option String}
    (exchanged : client.exchangeCode lib codec code nonce pkce = .ok (token, refreshToken)) :
    ∃ value, SignedPayload codec lib.verifies token value ∧ value.text "nonce" = some nonce := by
  obtain ⟨idToken, passed, rfl⟩ := OidcClient.checked_of_tokenCall exchanged
  obtain ⟨requireIssuerMatch, claims⟩ := OidcClient.claims_of_checkIdToken passed
  exact checks.claims_nonce claims

/-- The login whose secrets a request presents. -/
def Presents (past : List LoginEvent) (browser : Nat) (sentAt : Int) (cookies : Cookies) : Prop :=
  ∀ csrf nonce pkce, cookies "oidc_csrf" = some csrf → cookies "oidc_nonce" = some nonce →
    cookies "oidc_pkce" = some pkce → ∃ time auth, .login browser time auth ∈ past ∧
      time ≤ sentAt ∧ sentAt < time + minutes 5 ∧ csrf = auth.csrfToken ∧ nonce = auth.nonce ∧
      pkce = auth.pkceVerifier

/-- The jar holds the secrets of one login of the browser, or of none. -/
def HoldsLogin (past : List LoginEvent) (browser : Nat) (now : Int) (jar : Jar) : Prop :=
  (∀ name ∈ flowNames, jar name = none) ∨
  ∃ time auth, .login browser time auth ∈ past ∧ time ≤ now ∧
    jar "oidc_csrf" = some (auth.csrfToken, time + minutes 5) ∧
    jar "oidc_nonce" = some (auth.nonce, time + minutes 5) ∧
    jar "oidc_pkce" = some (auth.pkceVerifier, time + minutes 5)

/-- The jar holds no session but those of the browser. -/
structure HoldsSession (join : String → Option (String × Option String)) (secure : Bool)
    (Provider : OidcLib IdToken String Req → Prop) (codec : Codec) (client : OidcClient)
    (past : List LoginEvent) (browser : Nat) (jar : Jar) : Prop where
  token : ∀ token expires, jar "auth_token" = some (token, expires) →
    ∃ refreshToken, Session join secure Provider codec client past browser token refreshToken
  refresh : ∀ value expires, jar "refresh_token" = some (value, expires) →
    ∃ token, Session join secure Provider codec client past browser token (some value)

/-- What holds of the browsers throughout. -/
structure Descends (join : String → Option (String × Option String)) (secure : Bool)
    (Provider : OidcLib IdToken String Req → Prop) (codec : Codec) (client : OidcClient)
    (past : List LoginEvent) (s : Browsers) : Prop where
  flow : ∀ browser, HoldsLogin past browser s.now (s.jars browser)
  session : ∀ browser, HoldsSession join secure Provider codec client past browser (s.jars browser)
  presents : ∀ pid request, s.pending pid = some request →
    Presents past request.browser request.sentAt request.cookies
  renews : ∀ pid request value, s.pending pid = some request →
    request.cookies "refresh_token" = some value →
    ∃ token, Session join secure Provider codec client past request.browser token (some value)

theorem HoldsLogin.mono {past : List LoginEvent} (e : LoginEvent) {browser : Nat} {now later : Int}
    (forward : now ≤ later) {jar jar' : Jar} (same : ∀ name ∈ flowNames, jar' name = jar name)
    (holds : HoldsLogin past browser now jar) : HoldsLogin (past ++ [e]) browser later jar' := by
  simp only [flowNames, List.mem_cons, List.not_mem_nil, or_false, forall_eq_or_imp,
    forall_eq] at same
  rcases holds with none | ⟨time, auth, login, before, csrf, nonce, pkce⟩
  · left
    simp only [flowNames, List.mem_cons, List.not_mem_nil, or_false, forall_eq_or_imp,
      forall_eq] at none ⊢
    simp [same, none]
  · right
    refine ⟨time, auth, List.mem_append_left _ login, by omega, ?_⟩
    simp [same, csrf, nonce, pkce]

theorem HoldsSession.mono {past : List LoginEvent} (e : LoginEvent) {browser : Nat} {jar jar' : Jar}
    (sameToken : jar' "auth_token" = jar "auth_token")
    (sameRefresh : jar' "refresh_token" = jar "refresh_token")
    (holds : HoldsSession join secure Provider codec client past browser jar) :
    HoldsSession join secure Provider codec client (past ++ [e]) browser jar' where
  token := by
    intro token expires here
    obtain ⟨refreshToken, session⟩ := holds.token token expires (sameToken ▸ here)
    exact ⟨refreshToken, session.later e⟩
  refresh := by
    intro value expires here
    obtain ⟨token, session⟩ := holds.refresh value expires (sameRefresh ▸ here)
    exact ⟨token, session.later e⟩

/-- A jar that takes the cookies of a session holds that session. -/
theorem HoldsSession.take {past : List LoginEvent} {browser : Nat} {jar : Jar} {token : String}
    {refreshToken : Option String}
    (holds : HoldsSession join secure Provider codec client past browser jar)
    (session : Session join secure Provider codec client past browser token refreshToken) (now : Int) :
    HoldsSession join secure Provider codec client past browser
      (jar.take now (sessionCookies secure token refreshToken)) := by
  obtain ⟨-, hasToken, hasRefresh⟩ := Jar.take_session secure token refreshToken now jar
  constructor
  · intro token' expires here
    rw [hasToken] at here
    cases here
    exact ⟨refreshToken, session⟩
  · intro value expires here
    rw [hasRefresh] at here
    cases refreshToken with
    | none => exact holds.refresh value expires (by simpa using here)
    | some refreshToken =>
      simp only [Option.map_some, Option.some_or, Option.some.injEq, Prod.mk.injEq] at here
      exact ⟨token, here.1 ▸ session⟩

/-- The secrets that a browser sends are those of its login. -/
theorem HoldsLogin.presents {past : List LoginEvent} {browser : Nat} {now : Int} {jar : Jar}
    (holds : HoldsLogin past browser now jar) : Presents past browser now (jar.sent now) := by
  intro csrf nonce pkce hasCsrf hasNonce hasPkce
  obtain ⟨expires, csrfHere, fresh⟩ := Jar.sent_eq_some hasCsrf
  obtain ⟨_, nonceHere, -⟩ := Jar.sent_eq_some hasNonce
  obtain ⟨_, pkceHere, -⟩ := Jar.sent_eq_some hasPkce
  rcases holds with none | ⟨time, auth, login, before, csrfIs, nonceIs, pkceIs⟩
  · rw [none "oidc_csrf" (by simp [flowNames])] at csrfHere
    cases csrfHere
  · rw [csrfIs] at csrfHere
    rw [nonceIs] at nonceHere
    rw [pkceIs] at pkceHere
    cases csrfHere
    cases nonceHere
    cases pkceHere
    exact ⟨time, auth, login, before, fresh, rfl, rfl, rfl⟩

/-- A step that gives one browser another jar and starts no request. -/
theorem Descends.jar {past : List LoginEvent} {s : Browsers}
    (descends : Descends join secure Provider codec client past s) (e : LoginEvent) (browser : Nat) (jar : Jar)
    (pending : Nat → Option AuthRequest) (login : HoldsLogin (past ++ [e]) browser s.now jar)
    (session : HoldsSession join secure Provider codec client (past ++ [e]) browser jar)
    (fewer : ∀ pid request, pending pid = some request → s.pending pid = some request) :
    Descends join secure Provider codec client (past ++ [e])
      ⟨s.now, Function.update s.jars browser jar, pending⟩ where
  flow := by
    intro other
    simp only [Function.update_apply]
    split
    next same => exact same ▸ login
    next => exact (descends.flow other).mono e le_rfl fun _ _ => rfl
  session := by
    intro other
    simp only [Function.update_apply]
    split
    next same => exact same ▸ session
    next => exact (descends.session other).mono e rfl rfl
  presents := by
    intro pid request here csrf nonce pkce hasCsrf hasNonce hasPkce
    obtain ⟨time, auth, login, rest⟩ :=
      descends.presents pid request (fewer pid request here) csrf nonce pkce hasCsrf hasNonce hasPkce
    exact ⟨time, auth, List.mem_append_left _ login, rest⟩
  renews := by
    intro pid request value here has
    obtain ⟨token, session⟩ := descends.renews pid request value (fewer pid request here) has
    exact ⟨token, session.later e⟩

theorem fewer_of_update {pending : Nat → Option AuthRequest} {pid : Nat} (other : Nat)
    (request : AuthRequest) (here : Function.update pending pid none other = some request) :
    pending other = some request := by
  rw [Function.update_apply] at here
  split at here
  · cases here
  · exact here

/-- An answer to a callback. -/
theorem Descends.callback {past : List LoginEvent} {s : Browsers}
    (descends : Descends join secure Provider codec client past s) {pid : Nat} {request : AuthRequest}
    (here : s.pending pid = some request) {query : AuthCallbackQuery}
    (route : request.route = .callback query) {lib : OidcLib IdToken String Req}
    (provider : Provider lib) (checks : lib.ChecksNonce codec) (reply : AuthReply)
    (answer : reply = OidcRoute.callback join secure lib codec client query request.cookies) :
    let jar := (s.jars request.browser).take s.now reply.cookies
    HoldsLogin (past ++ [.replied request reply]) request.browser s.now jar ∧
    HoldsSession join secure Provider codec client (past ++ [.replied request reply]) request.browser jar := by
  intro jar
  obtain ⟨gone, sameToken, sameRefresh⟩ :=
    Jar.take_clear secure s.now (s.jars request.browser)
  have cleared := (descends.session request.browser).mono (.replied request reply) sameToken
    sameRefresh
  have cookies : reply.cookies = clearAuthFlowCookies secure ∨ ∃ token refreshToken,
      Exchanged lib codec client query request.cookies token refreshToken ∧
      reply.cookies = clearAuthFlowCookies secure ++ sessionCookies secure token refreshToken := by
    rw [answer]
    exact callback_cookies query request.cookies
  rcases cookies with only | ⟨token, refreshToken, exchanged, both⟩
  -- the browser loses the secrets of its login either way
  · simp only [jar, only]
    exact ⟨.inl gone, cleared⟩
  · obtain ⟨-, code, csrf, nonce, pkce, hasCode, hasState, hasCsrf, hasNonce, hasPkce, ok⟩ :=
      exchanged
    obtain ⟨time, auth, login, after, fresh, rfl, rfl, rfl⟩ :=
      descends.presents pid request here csrf nonce pkce hasCsrf hasNonce hasPkce
    have session : Session join secure Provider codec client (past ++ [.replied request reply])
        request.browser token refreshToken :=
      .completed ⟨⟨query, code, time, auth, lib, route, login, after, fresh, hasState, hasCode,
        provider, answer, ok, checks.exchanged ok⟩, both ▸ List.suffix_append ..⟩
    simp only [jar, both, Jar.take_append]
    refine ⟨.inl fun name mem => ?_, cleared.take session s.now⟩
    rw [(Jar.take_session secure token refreshToken s.now _).1 name mem]
    exact gone name mem

/-- An answer to a renewal. -/
theorem Descends.refresh {past : List LoginEvent} {s : Browsers}
    (descends : Descends join secure Provider codec client past s) {pid : Nat} {request : AuthRequest}
    (here : s.pending pid = some request) (route : request.route = .refresh)
    {lib : OidcLib IdToken String Req} (provider : Provider lib) (reply : AuthReply)
    (answer : reply = OidcRoute.refresh secure lib codec client request.cookies) :
    let jar := (s.jars request.browser).take s.now reply.cookies
    HoldsLogin (past ++ [.replied request reply]) request.browser s.now jar ∧
    HoldsSession join secure Provider codec client (past ++ [.replied request reply]) request.browser jar := by
  intro jar
  have login (jar' : Jar) (same : ∀ name ∈ flowNames, jar' name = s.jars request.browser name) :=
    (descends.flow request.browser).mono (.replied request reply) le_rfl same
  have kept := (descends.session request.browser).mono (.replied request reply) rfl rfl
  have computed := answer
  rw [OidcRoute.refresh] at answer
  split at answer
  next =>
    have none : reply.cookies = [] := by rw [answer]
    simp only [jar, none]
    exact ⟨login _ fun _ _ => rfl, kept⟩
  next value has =>
    split at answer
    next token refreshToken exchanged =>
      -- the refresh token that came with the request is one of the browser's own
      obtain ⟨old, before⟩ := descends.renews pid request value here has
      have both : reply.cookies = sessionCookies secure token refreshToken := by rw [answer]
      have session := before.renewed
        ⟨⟨lib, route, has, provider, computed, exchanged⟩, both ▸ List.suffix_refl _⟩
      simp only [jar, both]
      exact ⟨login _ (Jar.take_session secure token refreshToken s.now _).1,
        kept.take session s.now⟩
    next =>
      have none : reply.cookies = [] := by rw [answer]
      simp only [jar, none]
      exact ⟨login _ fun _ _ => rfl, kept⟩

theorem Descends.step {past : List LoginEvent} {s t : Browsers} {e : LoginEvent}
    (checks : ∀ lib, Provider lib → lib.ChecksNonce codec)
    (descends : Descends join secure Provider codec client past s)
    (step : Browsers.Step join secure Provider codec client s e t) :
    Descends join secure Provider codec client (past ++ [e]) t := by
  cases step with
  | login browser auth returnTo started =>
    -- the cookies of this login take the place of those of any earlier one
    obtain ⟨csrf, nonce, pkce, sameToken, sameRefresh⟩ :=
      Jar.take_login started s.now (s.jars browser)
    refine descends.jar _ browser _ _ (.inr ⟨s.now, auth, by simp, le_rfl, csrf, nonce, pkce⟩)
      ((descends.session browser).mono _ sameToken sameRefresh) fun _ _ here => here
  | follow pid browser route free =>
    -- the request presents what the browser holds when it sets out
    have same := descends.jar .quiet browser (s.jars browser) s.pending
      ((descends.flow browser).mono _ le_rfl fun _ _ => rfl)
      ((descends.session browser).mono _ rfl rfl) fun _ _ here => here
    rw [Function.update_eq_self] at same
    refine ⟨same.flow, same.session, ?_, ?_⟩
    · intro other request here
      simp only [Function.update_apply] at here
      split at here
      · cases here
        exact (same.flow browser).presents
      · exact same.presents other request here
    · intro other request value here has
      simp only [Function.update_apply] at here
      split at here
      · cases here
        obtain ⟨expires, held, -⟩ := Jar.sent_eq_some has
        exact (same.session browser).refresh value expires held
      · exact same.renews other request value here has
  | respond pid request lib reply here provider answer =>
    cases route : request.route with
    | callback query =>
      rw [route] at answer
      obtain ⟨login, session⟩ := descends.callback here route provider (checks lib provider) reply
        answer
      exact descends.jar _ _ _ _ login session fewer_of_update
    | refresh =>
      rw [route] at answer
      obtain ⟨login, session⟩ := descends.refresh here route provider reply answer
      exact descends.jar _ _ _ _ login session fewer_of_update
    | logout =>
      rw [route] at answer
      -- a logout only clears cookies
      have cookies : reply.cookies = (OidcRoute.logout secure).cookies := congrArg (·.cookies) answer
      refine descends.jar _ _ _ _ ((descends.flow request.browser).mono _ le_rfl ?_) ⟨?_, ?_⟩
        fewer_of_update
      · simp [cookies, flowNames, OidcRoute.logout, clearCookie, Cookie.build, Jar.take]
      · simp [cookies, OidcRoute.logout, clearCookie, Cookie.build, Jar.take]
      · simp [cookies, OidcRoute.logout, clearCookie, Cookie.build, Jar.take]
  | lost pid =>
    have same := descends.jar .quiet 0 (s.jars 0) (Function.update s.pending pid none)
      ((descends.flow 0).mono _ le_rfl fun _ _ => rfl)
      ((descends.session 0).mono _ rfl rfl) fewer_of_update
    rwa [Function.update_eq_self] at same
  | plant browser cookie =>
    refine descends.jar _ browser _ _ ((descends.flow browser).mono _ le_rfl ?_)
      ((descends.session browser).mono _ ?_ ?_) fun _ _ here => here
    · simp [flowNames]
    · simp
    · simp
  | tick later forward =>
    have same := descends.jar .quiet 0 (s.jars 0) s.pending
      ((descends.flow 0).mono _ le_rfl fun _ _ => rfl)
      ((descends.session 0).mono _ rfl rfl) fun _ _ here => here
    rw [Function.update_eq_self] at same
    exact ⟨fun browser => (descends.flow browser).mono _ forward fun _ _ => rfl, same.session,
      same.presents, same.renews⟩

/-- A session goes back to a login that a callback of the browser completed. -/
theorem Session.login {past : List LoginEvent} {browser : Nat} {token : String}
    {refreshToken : Option String}
    (session : Session join secure Provider codec client past browser token refreshToken) :
    ∃ before request reply first refreshToken', before ++ [.replied request reply] <+: past ∧
      request.browser = browser ∧
      Completed join secure Provider codec client before request reply first refreshToken' := by
  induction session with
  | completed done => exact ⟨_, _, _, _, _, List.prefix_refl _, rfl, done⟩
  | renewed _ _ ih | later _ _ ih =>
    obtain ⟨before, request, reply, first, refreshToken', earlier, rest⟩ := ih
    exact ⟨before, request, reply, first, refreshToken', earlier.trans (List.prefix_append ..), rest⟩

/-- **A session is the browser's own**. However logins, links to the callback, renewals and
    logouts of any browsers interleave, and whatever the provider answers, the token in a
    browser's session cookie was set by the reply to a callback of that browser, for a login it had
    begun less than five minutes before and signed for the nonce of that login, or it goes back to
    such a one over renewals. -/
theorem session_descends {s t : Browsers} {past : List LoginEvent}
    (checks : ∀ lib, Provider lib → lib.ChecksNonce codec)
    (fresh : ∀ browser name, s.jars browser name = none) (idle : ∀ pid, s.pending pid = none)
    (run : Browsers.Run join secure Provider codec client s past t) {browser : Nat}
    {token : String} {expires : Int} (held : t.jars browser "auth_token" = some (token, expires)) :
    ∃ refreshToken, Session join secure Provider codec client past browser token refreshToken ∧
      ∃ before request reply first refreshToken', before ++ [.replied request reply] <+: past ∧
        request.browser = browser ∧
        Completed join secure Provider codec client before request reply first refreshToken' := by
  have descends : Descends join secure Provider codec client past t := by
    clear held
    induction run with
    | start =>
      exact ⟨fun browser => .inl fun name _ => fresh browser name,
        fun browser => ⟨by simp [fresh], by simp [fresh]⟩, by simp [idle], by simp [idle]⟩
    | step _ step ih => exact ih.step checks step
  obtain ⟨refreshToken, session⟩ := (descends.session browser).token token expires held
  exact ⟨refreshToken, session, session.login⟩

end Descent

/-! ### One login -/

namespace Sample

theorem oidc_checks (configured : String) : (oidc configured).ChecksNonce codec where
  claims_nonce := by
    intro idToken requireIssuerMatch nonce taken
    simp only [oidc] at taken
    split at taken
    next known =>
      obtain ⟨rfl, -, same⟩ := known
      refine ⟨value, signed ⟨rfl, rfl⟩, ?_⟩
      obtain rfl : nonce = "n0" := by simpa using same
      rfl
    next => cases taken

def noncedProvider (lib : OidcLib String String String) : Prop := lib.ChecksNonce codec

def noncedLogin : AuthUrlResponse := ⟨"https://idp/auth", "s0", "n0", "v0"⟩

/-- The request that the provider sends the browser back with. -/
def noncedRequest : AuthRequest :=
  ⟨0, 0, .callback ⟨some "code", some "s0", none⟩,
    (Jar.take 0 (fun _ => none) (OidcRoute.login onSite true noncedLogin none).cookies).sent 0⟩

def noncedReply : AuthReply :=
  noncedRequest.route.reply onSite true (oidc tenantIssuer) codec ⟨none⟩ noncedRequest.cookies

/-- The jar after the callback. -/
def noncedJar : Jar :=
  (Jar.take 0 (fun _ => none) (OidcRoute.login onSite true noncedLogin none).cookies).take 0
    noncedReply.cookies

/-- The browser before the login, and after the callback. -/
def noncedStart : Browsers := ⟨0, fun _ _ => none, fun _ => none⟩

def noncedEnd : Browsers where
  now := 0
  jars := Function.update (Function.update (fun _ _ => none) 0
    (Jar.take 0 (fun _ => none) (OidcRoute.login onSite true noncedLogin none).cookies)) 0 noncedJar
  pending := Function.update (Function.update (fun _ => none) 0 (some noncedRequest)) 0 none

def noncedPast : List LoginEvent :=
  [.login 0 0 noncedLogin, .quiet, .replied noncedRequest noncedReply]

theorem noncedRun : Browsers.Run onSite true noncedProvider codec ⟨none⟩ noncedStart noncedPast
    noncedEnd :=
  ((Browsers.Run.start.step (.login 0 noncedLogin none rfl)).step
    (.follow 0 0 noncedRequest.route rfl)).step
      (.respond 0 noncedRequest (oidc tenantIssuer) noncedReply rfl (oidc_checks tenantIssuer) rfl)

theorem exchange_nonced (code : String) :
    OidcClient.exchangeCode (oidc tenantIssuer) codec ⟨none⟩ code "n0" "v0" =
      .ok (token, some "renewal") := by
  have claims : (oidc tenantIssuer).claims token true (some "n0") = .ok () := by simp [oidc]
  exact OidcClient.tokenCall_ok rfl (OidcClient.checkIdToken_plain claims)

theorem noncedReply_cookies : noncedReply.cookies =
    clearAuthFlowCookies true ++ sessionCookies true token (some "renewal") := by
  have csrf : noncedRequest.cookies "oidc_csrf" = some "s0" := by decide +kernel
  have nonce : noncedRequest.cookies "oidc_nonce" = some "n0" := by decide +kernel
  have pkce : noncedRequest.cookies "oidc_pkce" = some "v0" := by decide +kernel
  have back : noncedRequest.cookies "oidc_return_to" = none := by decide +kernel
  have route : noncedRequest.route = .callback ⟨some "code", some "s0", none⟩ := rfl
  simp only [noncedReply, route, AuthRoute.reply, OidcRoute.callback, csrf, nonce, pkce, back,
    exchange_nonced]
  simp

theorem noncedEnd_token : noncedEnd.jars 0 "auth_token" = some (token, 604800) := by
  have jar : noncedEnd.jars 0 = noncedJar := by simp [noncedEnd]
  rw [jar, noncedJar, noncedReply_cookies, Jar.take_append]
  exact (Jar.take_session true token (some "renewal") 0 _).2.1

theorem session_descends_nonced : ∃ refreshToken,
    Session onSite true noncedProvider codec ⟨none⟩ noncedPast 0 token refreshToken ∧
    ∃ before request reply first refreshToken', before ++ [.replied request reply] <+: noncedPast ∧
      request.browser = 0 ∧ Completed onSite true noncedProvider codec ⟨none⟩ before request reply
        first refreshToken' :=
  session_descends (fun _ checks => checks) (fun _ _ => rfl) (fun _ => rfl) noncedRun noncedEnd_token

end Sample

end RustApi.Auth
