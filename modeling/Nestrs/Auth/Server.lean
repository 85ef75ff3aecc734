import Nestrs.Auth.Strategy
import Mathlib.Logic.Function.Basic

/-!
# Logging in, and the tokens that come of it

The auth app (`apps/auth/src/oauth`) and a resource server such as the api app
(`apps/api/src/authn`), over the strategies of `Strategy.lean`, with the contract that they share
(`crates/identity`).

* The auth app signs two kinds of token with one key: access tokens and the transactions of its
  flows. The resource server has the public key only.
* A world is what has happened so far. Anything may come in at any time: requests to the token
  endpoint, requests of browsers, which send the cookie that they were last given, and requests of
  anybody else, with any cookie, code, `state` or token.
* The provider is outside: a request with a code comes with what its endpoints answer then, whatever
  that is. It is trusted with what OAuth 2.0 and PKCE ask of it (`Provider.Honest`): it exchanges
  only a code that it has granted, for the verifier of the challenge it was granted for, and once.
* Signatures are not forged (`Unforged`): a token that verifies has been signed by the auth app.

Results:
* **`secure_of_reachable`**: every login ends a flow of the auth app, with the transaction, the
  `state` and a code of that flow, in time and once, in the browser that started it; every principal
  that the resource server accepts was issued, in time, and is an admin only by the token endpoint;
* **`browser_login_iff`**: exactly when the guard lets a browser through, by what the provider
  answers.
-/

namespace Nestrs.Auth

open Nestrs.Lib Nestrs.Authz Nestrs.Orm

variable {EK DK : Type}

/-! ## The contract of the apps -/

/-- `Uuid`, with its text. -/
structure UuidText where
  toString : Uuid → String
  parse : String → Option Uuid
  parse_toString : ∀ u, parse (toString u) = some u

/-- `Claims`. -/
structure Claims where
  orgId : Uuid
  roles : List Role
  exp : Nat
deriving DecidableEq, Repr

/-- `Claims::is_admin`. -/
def Claims.isAdmin (claims : Claims) : Bool := claims.roles.contains .admin

namespace Role

def serialize : Role → Json
  | admin => .string "admin"
  | user => .string "user"

def deserialize : Json → Option Role
  | .string s => if s = "admin" then some admin else if s = "user" then some user else none
  | _ => none

theorem deserialize_serialize (role : Role) : deserialize role.serialize = some role := by
  cases role <;> rfl

end Role

def asArray : Json → Option (List Json)
  | .array items => some items
  | _ => none

/-- The derived `Serialize` and `Deserialize` of `Claims`. -/
def Claims.wire (uuids : UuidText) : Wire Claims where
  serialize claims :=
    .object [("org_id", .string (uuids.toString claims.orgId)),
      ("roles", .array (claims.roles.map Role.serialize)), ("exp", ofU64 claims.exp)]
  deserialize payload := do
    let orgId ← ((jsonField "org_id" payload).bind asString).bind uuids.parse
    let roles ← ((jsonField "roles" payload).bind asArray).bind (List.mapM Role.deserialize)
    let exp ← expOf payload
    some ⟨orgId, roles, exp⟩

/-- `roles_from_scope`. -/
def rolesFromScope (scope : Option String) : List Role :=
  let words := ((scope.getD "").toList.splitOnP isWhitespace).filter fun word => word ≠ []
  let roles := words.filterMap fun word =>
    if word = "admin".toList then some .admin
    else if word = "user".toList then some .user
    else none
  if roles = [] then [.user] else roles

/-- `TokenIssuer::issue`. -/
def issue (engine : Engine EK DK) (uuids : UuidText) (jwt : JwtService EK DK) (now : Nat)
    (orgId : Uuid) (roles : List Role) : Except AuthError (String × Nat) := do
  let token ← jwt.sign engine (Claims.wire uuids) ⟨orgId, roles, jwt.expiry now⟩
  .ok (token, jwt.ttlSecs)

section Wires

variable {uuids : UuidText} {tx tx' : Transaction} {claims claims' : Claims}

theorem expOf_transaction {exp : Nat} :
    expOf (Transaction.wire.serialize tx) = some exp ↔ exp = tx.exp ∧ tx.exp < 2 ^ 64 :=
  asU64_ofU64

theorem expOf_claims {exp : Nat} :
    expOf ((Claims.wire uuids).serialize claims) = some exp ↔
      exp = claims.exp ∧ claims.exp < 2 ^ 64 :=
  asU64_ofU64

theorem deserialize_transaction :
    Transaction.wire.deserialize (Transaction.wire.serialize tx) = some tx' ↔
      tx' = tx ∧ tx.exp < 2 ^ 64 := by
  have h : Transaction.wire.deserialize (Transaction.wire.serialize tx) =
      (expOf (Transaction.wire.serialize tx)).map fun exp => ⟨tx.csrf, tx.pkce, exp⟩ := by
    rw [Option.map_eq_bind]
    rfl
  rw [h, Option.map_eq_some_iff]
  constructor
  · rintro ⟨exp, hexp, rfl⟩
    obtain ⟨rfl, hlt⟩ := expOf_transaction.mp hexp
    exact ⟨rfl, hlt⟩
  · rintro ⟨rfl, hlt⟩
    exact ⟨tx'.exp, expOf_transaction.mpr ⟨rfl, hlt⟩, rfl⟩

theorem mapM_deserialize (roles : List Role) :
    (roles.map Role.serialize).mapM Role.deserialize = some roles := by
  induction roles with
  | nil => rfl
  | cons role roles ih => simp [List.mapM_cons, Role.deserialize_serialize, ih]

theorem deserialize_claims :
    (Claims.wire uuids).deserialize ((Claims.wire uuids).serialize claims) = some claims' ↔
      claims' = claims ∧ claims.exp < 2 ^ 64 := by
  have h : (Claims.wire uuids).deserialize ((Claims.wire uuids).serialize claims) =
      (uuids.parse (uuids.toString claims.orgId)).bind fun orgId =>
        ((claims.roles.map Role.serialize).mapM Role.deserialize).bind fun roles =>
          (expOf ((Claims.wire uuids).serialize claims)).map fun exp => ⟨orgId, roles, exp⟩ := by
    simp only [Option.map_eq_bind]
    rfl
  rw [h, uuids.parse_toString, mapM_deserialize, Option.bind_some, Option.bind_some,
    Option.map_eq_some_iff]
  constructor
  · rintro ⟨exp, hexp, rfl⟩
    obtain ⟨rfl, hlt⟩ := expOf_claims.mp hexp
    exact ⟨rfl, hlt⟩
  · rintro ⟨rfl, hlt⟩
    exact ⟨claims'.exp, expOf_claims.mpr ⟨rfl, hlt⟩, rfl⟩

/-- **One key, two kinds of token**: an access token is no transaction. -/
theorem claims_not_transaction :
    Transaction.wire.deserialize ((Claims.wire uuids).serialize claims) = none := rfl

/-- And a transaction is no access token. -/
theorem transaction_not_claims :
    (Claims.wire uuids).deserialize (Transaction.wire.serialize tx) = none := rfl

end Wires

/-! ## The world -/

/-- The two apps, with the keys of one pair, and what they run on. -/
structure Deployment (EK DK : Type) where
  engine : Engine EK DK
  oauth2 : OAuth2
  config : OAuth2Config
  uuids : UuidText
  render : AuthorizationUrl → String
  privatePem : String
  publicPem : String
  auth : JwtService EK DK
  resource : JwtService EK DK
  auth_new : JwtService.new engine (.eddsa privatePem publicPem) = .ok auth
  resource_new : JwtService.new engine (.eddsaVerify publicPem) = .ok resource
  /-- What is signed verifies, and is a compact text. -/
  signed : ∀ encoding, auth.encoding = some encoding → ∀ claims token,
    engine.encode .edDSA claims encoding = .ok token →
      engine.payload .edDSA token auth.decoding = some claims ∧
        ∀ c ∈ token.toList, isWhitespace c = false ∧ c ≠ ';'

/-- A flow that the auth app has started, in a browser or not. -/
structure Flow where
  browser : Option Nat
  csrf : String
  verifier : String
  transaction : String
  startedAt : Nat
deriving DecidableEq, Repr

/-- A code that the provider has granted, and for which challenge. -/
structure Grant where
  code : String
  challenge : String
deriving DecidableEq, Repr

/-- A request with a code that the guard has let through. -/
structure Login where
  browser : Option Nat
  transaction : String
  state : String
  code : String
  time : Nat
deriving DecidableEq, Repr

/-- How a token was issued. -/
inductive Via where
  | token (scope : Option String)
  | callback
deriving DecidableEq, Repr

/-- An access token. -/
structure Issued where
  token : String
  claims : Claims
  time : Nat
  via : Via
deriving DecidableEq, Repr

/-- A principal that the resource server has accepted. -/
structure Accepted where
  principal : Claims
  time : Nat
deriving DecidableEq, Repr

/-- The cookie of a redirect, as a browser keeps it. -/
structure Kept where
  cookie : CookiePair
  expires : Nat

/-- What a browser makes of the `Set-Cookie` of a redirect, with its `Max-Age`. -/
def storeCookie (transaction : String) (now : Nat) : Option Kept :=
  if h : cleanValue transaction.toList = true then
    some ⟨⟨transactionCookieName.toList, transaction.toList, transactionCookieName_clean,
      cleanValue_iff.mp h⟩, now + 600⟩
  else none

theorem storeCookie_of_clean {transaction : String}
    (h : ∀ c ∈ transaction.toList, isWhitespace c = false ∧ c ≠ ';') (now : Nat) :
    storeCookie transaction now =
      some ⟨⟨transactionCookieName.toList, transaction.toList, transactionCookieName_clean, h⟩,
        now + 600⟩ :=
  dif_pos (cleanValue_iff.mpr h)

/-- What has happened so far: the tokens that were signed, flows, codes granted and exchanged, the
cookie of each browser, logins, tokens issued, principals accepted. -/
structure World where
  now : Nat
  minted : List (String × Json)
  flows : List Flow
  grants : List Grant
  spent : List String
  jars : Nat → Option Kept
  logins : List Login
  issued : List Issued
  accepted : List Accepted

/-- Who sends a request: a browser, with its other cookies around that of the flow, or anybody, with
any cookie. -/
inductive Sender where
  | browser (b : Nat) (before after : List CookiePair)
  | anybody (cookie : Option String)

def Sender.id : Sender → Option Nat
  | browser b _ _ => some b
  | anybody _ => none

/-- The two routes behind `OAuthGuard`. -/
inductive OAuthRoute where
  | authorize
  | callback
deriving DecidableEq, Repr

/-- What can happen. -/
inductive Event where
  | advance (δ : Nat)
  | token (grantType : String) (orgId : Uuid) (scope : Option String)
  | visit (sender : Sender) (csrf verifier : String)
  | grant (g : Grant)
  | login (sender : Sender) (route : OAuthRoute) (code : String) (state : Option String)
    (provider : Provider)
  | resource (authorization : Option String)

namespace World

variable (d : Deployment EK DK) (w : World)

def init (now : Nat) : World := ⟨now, [], [], [], [], fun _ => none, [], [], []⟩

/-- The cookie of a redirect that a browser sends. -/
def jar (b : Nat) : Option CookiePair :=
  ((w.jars b).filter fun kept => w.now < kept.expires).map Kept.cookie

/-- The `Cookie` header of a request. -/
def cookieOf : Sender → Option String
  | .anybody cookie => cookie
  | .browser b before after =>
    match before ++ (w.jar b).toList ++ after with
    | [] => none
    | cookies => some (String.ofList (cookieHeader cookies))

/-- The handlers of the auth app that issue a token: `OAuthController::issue`. -/
def issueToken (orgId : Uuid) (roles : List Role) (via : Via) : World :=
  match issue d.engine d.uuids d.auth w.now orgId roles with
  | .error _ => w
  | .ok (token, _) =>
    let claims : Claims := ⟨orgId, roles, d.auth.expiry w.now⟩
    { w with
      minted := (token, (Claims.wire d.uuids).serialize claims) :: w.minted
      issued := ⟨token, claims, w.now, via⟩ :: w.issued }

/-- `OAuthController::token`. -/
def token (grantType : String) (orgId : Uuid) (scope : Option String) : World :=
  if grantType ≠ "client_credentials" then w
  else w.issueToken d orgId (rolesFromScope scope) (.token scope)

/-- `OAuthGuard` on a request, which draws these random numbers. -/
def oauthGuard (provider : Provider) (req : AuthRequest Caller) (csrf verifier : String) :
    Except Response (AuthRequest Caller) :=
  authGuard (OAuthStrategy.authenticate d.config d.oauth2 d.engine d.auth d.render provider req
    w.now csrf verifier) req

/-- A request without a code: the guard answers with the redirect, and a browser keeps its
cookie. -/
def visit (sender : Sender) (csrf verifier : String) : World :=
  match d.config.authorize d.oauth2 d.engine d.auth w.now csrf verifier with
  | .error _ => w
  | .ok authorization =>
    { w with
      minted := (authorization.transaction,
        Transaction.wire.serialize ⟨csrf, verifier, d.auth.expiry w.now⟩) :: w.minted
      flows := ⟨sender.id, csrf, verifier, authorization.transaction, w.now⟩ :: w.flows
      jars := match sender.id with
        | none => w.jars
        | some b => Function.update w.jars b (storeCookie authorization.transaction w.now) }

/-- The flow that was last started in a browser. -/
def lastFlow (b : Nat) : Option Flow := w.flows.find? fun f => f.browser = some b

/-- That flow, as long as the browser keeps its cookie. -/
def openFlow (b : Nat) : Option Flow := (w.lastFlow b).filter fun f => w.now < f.startedAt + 600

/-- The codes that the provider has exchanged after a request, whatever comes of the login. -/
def spentBy (provider : Provider) (cookie : Option String) (code : String)
    (state : Option String) : List String :=
  match state, cookie.bind transactionCookie with
  | some state, some transaction =>
    match d.config.exchange d.oauth2 d.engine d.auth w.now provider.tokenEndpoint transaction
        state code with
    | .ok _ => code :: w.spent
    | .error _ => w.spent
  | _, _ => w.spent

/-- A request with a code. Behind the guard, the callback issues a token to the principal of the
request. -/
def login (sender : Sender) (route : OAuthRoute) (code : String) (state : Option String)
    (provider : Provider) : World :=
  let cookie := w.cookieOf sender
  let spent := w.spentBy d provider cookie code state
  match w.oauthGuard d provider ⟨none, cookie, ⟨some code, state⟩, none⟩ "" "" with
  | .error _ => { w with spent }
  | .ok req =>
    let transaction := (cookie.bind transactionCookie).getD ""
    let w' : World :=
      { w with spent, logins := ⟨sender.id, transaction, state.getD "", code, w.now⟩ :: w.logins }
    match route, req.principal with
    | .callback, some caller => w'.issueToken d caller.orgId caller.roles .callback
    | _, _ => w'

/-- A request to the resource server. -/
def resource (authorization : Option String) : World :=
  let req : AuthRequest Claims := ⟨authorization, none, ⟨none, none⟩, none⟩
  match authGuard (JwtStrategy.authenticate d.engine (Claims.wire d.uuids) d.resource req w.now)
      req with
  | .error _ => w
  | .ok req =>
    match req.principal with
    | none => w
    | some principal => { w with accepted := ⟨principal, w.now⟩ :: w.accepted }

def step : Event → World
  | .advance δ => { w with now := w.now + δ }
  | .token grantType orgId scope => w.token d grantType orgId scope
  | .visit sender csrf verifier => w.visit d sender csrf verifier
  | .grant g => { w with grants := g :: w.grants }
  | .login sender route code state provider => w.login d sender route code state provider
  | .resource authorization => w.resource d authorization

/-- A token that verifies has been signed by the auth app. -/
def Signed (token : String) : Prop :=
  ∀ payload, d.engine.payload .edDSA token d.auth.decoding = some payload →
    (token, payload) ∈ w.minted

/-- Signatures are not forged, and a browser has one cookie of a name. -/
def Unforged : Event → Prop
  | .login sender _ _ _ _ =>
    (∀ token, (w.cookieOf sender).bind transactionCookie = some token → w.Signed d token) ∧
      ∀ b before after, sender = .browser b before after →
        ∀ c ∈ before ++ after, c.name ≠ transactionCookieName.toList
  | .resource authorization => ∀ token,
    bearerToken (⟨authorization, none, ⟨none, none⟩, none⟩ : AuthRequest Claims) = some token →
      w.Signed d token
  | _ => True

end World

/-- **What is documented of the provider**, as an authorization server of OAuth 2.0 with PKCE: it
exchanges a code that it has granted, for the verifier of the challenge that came with the grant,
and no code twice. -/
structure Provider.Honest (s256 : String → String) (w : World) (provider : Provider) : Prop where
  granted : ∀ request token, provider.tokenEndpoint request = .ok token →
    ∃ g ∈ w.grants, g.code = request.code ∧ g.challenge = s256 request.verifier
  unspent : ∀ request token, provider.tokenEndpoint request = .ok token → request.code ∉ w.spent

/-- The provider that a request meets is honest. -/
def World.Honest (d : Deployment EK DK) (w : World) : Event → Prop
  | .login _ _ _ _ provider => provider.Honest d.oauth2.s256 w
  | _ => True

/-- The worlds that can come about. -/
inductive Reachable (d : Deployment EK DK) : World → Prop where
  | init (now : Nat) : Reachable d (.init now)
  | step {w : World} (e : Event) : Reachable d w → w.Unforged d e → w.Honest d e →
      Reachable d (w.step d e)

/-! ## What the functions do in a world -/

namespace Deployment

variable (d : Deployment EK DK)

/-- The auth app signs, with the one algorithm, what lives for an hour. -/
theorem auth_spec : (∃ encoding, d.auth.encoding = some encoding) ∧ d.auth.algorithm = .edDSA ∧
    d.auth.expiresIn = 3600 ∧ d.engine.decodingFromEdPem d.publicPem = .ok d.auth.decoding := by
  have h := d.auth_new
  unfold JwtService.new JwtOptions.eddsa at h
  simp only at h
  split at h
  · exact nomatch h
  · rename_i decoding hdecoding
    split at h
    · exact nomatch h
    · rename_i encoding _
      have hauth := Except.ok.inj h
      rw [← hauth]
      exact ⟨⟨encoding, rfl⟩, rfl, rfl, hdecoding⟩

/-- The resource server verifies with the same key, and signs nothing. -/
theorem resource_spec : d.resource.encoding = none ∧ d.resource.algorithm = .edDSA ∧
    d.resource.decoding = d.auth.decoding := by
  have h := d.resource_new
  unfold JwtService.new JwtOptions.eddsaVerify at h
  simp only at h
  split at h
  · exact nomatch h
  · rename_i decoding hdecoding
    have hresource := Except.ok.inj h
    rw [← hresource]
    refine ⟨rfl, rfl, ?_⟩
    exact Except.ok.inj (hdecoding.symm.trans d.auth_spec.2.2.2)

/-- What the auth app signs verifies, as what was signed. -/
theorem payload_of_sign {C : Type} {wire : Wire C} {claims : C} {token : String}
    (h : d.auth.sign d.engine wire claims = .ok token) :
    d.engine.payload .edDSA token d.auth.decoding = some (wire.serialize claims) ∧
      ∀ c ∈ token.toList, isWhitespace c = false ∧ c ≠ ';' := by
  obtain ⟨encoding, hencoding, htoken⟩ := sign_eq_ok_iff.mp h
  rw [d.auth_spec.2.1] at htoken
  exact d.signed encoding hencoding _ token htoken

end Deployment

/-- What the transaction of a flow says. -/
def Flow.tx (f : Flow) : Transaction := ⟨f.csrf, f.verifier, f.startedAt + 3600⟩

section Functions

variable {d : Deployment EK DK} {w : World} {csrf verifier transaction state code token : String}
  {authorization : Authorization} {tx : Transaction} {f : Flow} {provider : Provider}

theorem authorize_eq_ok (h : d.config.authorize d.oauth2 d.engine d.auth w.now csrf verifier =
    .ok authorization) :
    d.auth.sign d.engine Transaction.wire ⟨csrf, verifier, d.auth.expiry w.now⟩ =
      .ok authorization.transaction := by
  unfold OAuth2Config.authorize at h
  obtain ⟨⟨⟩, -, h⟩ := bind_eq_ok.mp h
  obtain ⟨transaction, hsign, h⟩ := bind_eq_ok.mp h
  cases h
  exact hsign

/-- When a transaction verifies whose payload is that of a flow. -/
theorem verify_flow (hpayload : d.engine.payload .edDSA transaction d.auth.decoding =
    some (Transaction.wire.serialize f.tx)) :
    d.auth.verify d.engine Transaction.wire transaction w.now = .ok tx ↔
      tx = f.tx ∧ f.startedAt + 3600 < 2 ^ 64 ∧ w.now ≤ f.startedAt + 3600 + d.engine.leeway := by
  rw [verify_eq_ok_iff, d.auth_spec.2.1]
  constructor
  · rintro ⟨payload, exp, h, htx, hexp, hfresh⟩
    cases hpayload.symm.trans h
    obtain ⟨rfl, hlt⟩ := deserialize_transaction.mp htx
    obtain ⟨rfl, -⟩ := expOf_transaction.mp hexp
    exact ⟨rfl, hlt, hfresh⟩
  · rintro ⟨rfl, hlt, hfresh⟩
    exact ⟨_, _, hpayload, deserialize_transaction.mpr ⟨rfl, hlt⟩,
      expOf_transaction.mpr ⟨rfl, hlt⟩, hfresh⟩

theorem openFlow_eq_some {b : Nat} : w.openFlow b = some f ↔
    w.lastFlow b = some f ∧ w.now < f.startedAt + 600 := by
  rw [World.openFlow, Option.filter_eq_some_iff, decide_eq_true_iff]

theorem of_openFlow {b : Nat} (h : w.openFlow b = some f) :
    f ∈ w.flows ∧ f.browser = some b ∧ w.now < f.startedAt + 600 := by
  obtain ⟨hlast, hkept⟩ := openFlow_eq_some.mp h
  exact ⟨List.mem_of_find?_eq_some hlast, by simpa using List.find?_some hlast, hkept⟩

/-- To a request without a code the guard answers with the redirect, whose flow is that of
`World.visit`. -/
theorem oauthGuard_of_no_code {cookie state : Option String} :
    w.oauthGuard d provider ⟨none, cookie, ⟨none, state⟩, none⟩ csrf verifier = .error
      (match d.config.authorize d.oauth2 d.engine d.auth w.now csrf verifier with
      | .error e => e.intoResponse
      | .ok authorization => ⟨302, [("location", d.render authorization.url),
          ("set-cookie", setCookie authorization.transaction)], ""⟩) := by
  unfold World.oauthGuard OAuthStrategy.authenticate
  simp only
  cases d.config.authorize d.oauth2 d.engine d.auth w.now csrf verifier <;> rfl

/-- What the exchange asks the provider, with the verifier of a transaction. -/
def exchanged (d : Deployment EK DK) (code verifier : String) : TokenRequest :=
  ⟨d.config.tokenUrl, d.config.clientId, d.config.clientSecret, code, verifier⟩

/-- When the guard lets a request with a code through: the transaction in its cookie verifies, the
`state` came back, and the provider exchanges the code for the verifier and says who the user is. -/
theorem oauthGuard_eq_ok {cookie state : Option String} {req : AuthRequest Caller} :
    w.oauthGuard d provider ⟨none, cookie, ⟨some code, state⟩, none⟩ csrf verifier = .ok req ↔
      req = ⟨none, cookie, ⟨some code, state⟩, some ⟨demoOrg, [.user]⟩⟩ ∧
      ∃ transaction tx, cookie.bind transactionCookie = some transaction ∧
        d.auth.verify d.engine Transaction.wire transaction w.now = .ok tx ∧
        state = some tx.csrf ∧ d.config.basicClient d.oauth2 = .ok () ∧
        ∃ accessToken, provider.tokenEndpoint (exchanged d code tx.pkce) = .ok accessToken ∧
          ∃ profile, provider.userinfo accessToken = .ok profile := by
  have hguard : ∀ decided : Except AuthError (Outcome Caller), ∀ req₀ : AuthRequest Caller,
      authGuard decided req₀ = .ok req ↔ ∃ caller, decided = .ok (.authenticated caller) ∧
        req = { req₀ with principal := some caller } := by
    intro decided req₀
    rcases decided with e | caller | response
    · simp [authGuard]
    · simp [authGuard, eq_comm]
    · simp [authGuard]
  rw [World.oauthGuard, hguard]
  unfold OAuthStrategy.authenticate
  simp only
  constructor
  · rintro ⟨caller, h, rfl⟩
    split at h
    · exact nomatch h
    · rename_i state
      split at h
      · exact nomatch h
      · rename_i transaction htransaction
        obtain ⟨accessToken, hexchange, hrest⟩ := bind_eq_ok.mp h
        obtain ⟨profile, hprofile, hdone⟩ := bind_eq_ok.mp hrest
        obtain ⟨request, hrequest, hendpoint⟩ := bind_eq_ok.mp hexchange
        obtain ⟨tx, hverify, rfl, hclient, rfl⟩ := tokenRequest_eq_ok_iff.mp hrequest
        cases hdone
        exact ⟨rfl, transaction, tx, htransaction, hverify, rfl, hclient, accessToken,
          mapError_eq_ok.mp hendpoint, profile, mapError_eq_ok.mp hprofile⟩
  · rintro ⟨rfl, transaction, tx, htransaction, hverify, rfl, hclient, accessToken, hendpoint,
      profile, hprofile⟩
    refine ⟨⟨demoOrg, [.user]⟩, ?_, rfl⟩
    have hrequest : d.config.tokenRequest d.oauth2 d.engine d.auth w.now transaction tx.csrf code =
        .ok (exchanged d code tx.pkce) :=
      tokenRequest_eq_ok_iff.mpr ⟨tx, hverify, rfl, hclient, rfl⟩
    simp only [htransaction]
    refine bind_eq_ok.mpr
      ⟨accessToken, bind_eq_ok.mpr ⟨_, hrequest, mapError_eq_ok.mpr hendpoint⟩, ?_⟩
    exact bind_eq_ok.mpr ⟨profile, mapError_eq_ok.mpr hprofile, rfl⟩

end Functions

/-! ## What holds in every world -/

/-- The login ends a flow of the auth app: with its transaction and its `state`, with a code for its
verifier, before its transaction expires, and in its browser. -/
def Login.Ends (d : Deployment EK DK) (w : World) (l : Login) : Prop :=
  ∃ f ∈ w.flows, ∃ g ∈ w.grants, l.transaction = f.transaction ∧ l.state = f.csrf ∧
    g.code = l.code ∧ g.challenge = d.oauth2.s256 f.verifier ∧
    f.startedAt ≤ l.time ∧ l.time ≤ f.startedAt + 3600 + d.engine.leeway ∧
    ∀ b, l.browser = some b → f.browser = some b ∧ l.time < f.startedAt + 600

/-- The principal was issued, and has not expired when it is accepted. -/
def Accepted.Backed (d : Deployment EK DK) (w : World) (a : Accepted) : Prop :=
  ∃ i ∈ w.issued, i.claims = a.principal ∧ i.time ≤ a.time ∧
    a.time ≤ i.time + 3600 + d.engine.leeway

/-- **What is asked of the two apps.** -/
structure Secure (d : Deployment EK DK) (w : World) : Prop where
  /-- Every login ends a flow. -/
  ends : ∀ l ∈ w.logins, l.Ends d w
  /-- No code logs in twice. -/
  once : (w.logins.map Login.code).Nodup
  /-- Every principal that is accepted is backed by a token of the auth app. -/
  backed : ∀ a ∈ w.accepted, a.Backed d w
  /-- Only the token endpoint makes an admin, and only when the scope says so. -/
  admin : ∀ i ∈ w.issued, i.claims.isAdmin = true →
    ∃ scope, i.via = .token scope ∧ Role.admin ∈ rolesFromScope scope

/-- The invariant of the world. -/
structure Inv (d : Deployment EK DK) (w : World) : Prop where
  secure : Secure d w
  minted : ∀ m ∈ w.minted,
    (∃ f ∈ w.flows, f.transaction = m.1 ∧ m.2 = Transaction.wire.serialize f.tx) ∨
      ∃ i ∈ w.issued, m.2 = (Claims.wire d.uuids).serialize i.claims
  flows : ∀ f ∈ w.flows, f.startedAt ≤ w.now ∧
    d.engine.payload .edDSA f.transaction d.auth.decoding = some (Transaction.wire.serialize f.tx) ∧
    ∀ c ∈ f.transaction.toList, isWhitespace c = false ∧ c ≠ ';'
  issued : ∀ i ∈ w.issued, i.time ≤ w.now ∧ i.claims.exp = i.time + 3600
  jars : ∀ b, w.jars b = (w.lastFlow b).bind fun f => storeCookie f.transaction f.startedAt
  spent : ∀ l ∈ w.logins, l.code ∈ w.spent

section Steps

variable {d : Deployment EK DK} {w : World}

theorem inv_init (now : Nat) : Inv d (.init now) where
  secure := ⟨nofun, List.nodup_nil, nofun, nofun⟩
  minted := nofun
  flows := nofun
  issued := nofun
  jars _ := rfl
  spent := nofun

/-- Flows and grants stay. -/
theorem Login.Ends.mono {l : Login} {w' : World} (h : l.Ends d w) (hflows : w.flows ⊆ w'.flows)
    (hgrants : w.grants ⊆ w'.grants) : l.Ends d w' := by
  obtain ⟨f, hf, g, hg, hrest⟩ := h
  exact ⟨f, hflows hf, g, hgrants hg, hrest⟩

theorem Accepted.Backed.mono {a : Accepted} {w' : World} (h : a.Backed d w)
    (hissued : w.issued ⊆ w'.issued) : a.Backed d w' := by
  obtain ⟨i, hi, hrest⟩ := h
  exact ⟨i, hissued hi, hrest⟩

/-- A token is issued, to whom the issuing handler may make an admin. -/
theorem inv_issueToken (h : Inv d w) (orgId : Uuid) (roles : List Role) (via : Via)
    (hadmin : roles.contains .admin = true →
      ∃ scope, via = .token scope ∧ Role.admin ∈ rolesFromScope scope) :
    Inv d (w.issueToken d orgId roles via) := by
  unfold World.issueToken
  split
  · exact h
  · rename_i token ttl hissue
    refine ⟨⟨fun l hl => (h.secure.ends l hl).mono (List.Subset.refl _) (List.Subset.refl _),
      h.secure.once, fun a ha => (h.secure.backed a ha).mono (List.subset_cons_self _ _), ?_⟩, ?_,
      h.flows, ?_, h.jars, h.spent⟩
    · exact List.forall_mem_cons.mpr ⟨hadmin, h.secure.admin⟩
    · refine List.forall_mem_cons.mpr ⟨.inr ⟨_, List.mem_cons_self, rfl⟩, fun m hm => ?_⟩
      exact (h.minted m hm).imp id fun ⟨i, hi, hpayload⟩ => ⟨i, List.mem_cons_of_mem _ hi, hpayload⟩
    · refine List.forall_mem_cons.mpr ⟨⟨le_refl _, ?_⟩, h.issued⟩
      rw [JwtService.expiry, d.auth_spec.2.2.1]

theorem inv_token (h : Inv d w) (grantType : String) (orgId : Uuid) (scope : Option String) :
    Inv d (w.token d grantType orgId scope) := by
  unfold World.token
  split
  · exact h
  · exact inv_issueToken h orgId _ _ fun hadmin => ⟨scope, rfl, by simpa using hadmin⟩

/-- A flow is started. -/
theorem inv_visit (h : Inv d w) (sender : Sender) (csrf verifier : String) :
    Inv d (w.visit d sender csrf verifier) := by
  unfold World.visit
  split
  · exact h
  · rename_i authorization hauthorize
    have hsign := authorize_eq_ok hauthorize
    rw [JwtService.expiry, d.auth_spec.2.2.1] at hsign
    obtain ⟨hpayload, hclean⟩ := d.payload_of_sign hsign
    refine ⟨⟨fun l hl => (h.secure.ends l hl).mono (List.subset_cons_self _ _)
      (List.Subset.refl _), h.secure.once, h.secure.backed, h.secure.admin⟩, ?_, ?_, h.issued, ?_,
      h.spent⟩
    · rw [JwtService.expiry, d.auth_spec.2.2.1]
      refine List.forall_mem_cons.mpr ⟨.inl ⟨_, List.mem_cons_self, rfl, rfl⟩, fun m hm => ?_⟩
      exact (h.minted m hm).imp (fun ⟨f, hf, hrest⟩ => ⟨f, List.mem_cons_of_mem _ hf, hrest⟩) id
    · exact List.forall_mem_cons.mpr ⟨⟨le_refl _, hpayload, hclean⟩, h.flows⟩
    · intro b
      rw [World.lastFlow, List.find?_cons]
      cases hid : sender.id with
      | none => exact h.jars b
      | some b' =>
        by_cases hb : b = b'
        · subst hb
          simp
        · simp only [Function.update_of_ne hb, Option.some_inj, Ne.symm hb, decide_false]
          exact h.jars b

/-- A browser keeps the cookie of its last flow for ten minutes. -/
theorem jar_eq (h : Inv d w) (b : Nat) : ((w.jar b).map fun c => (c.name, c.value)) =
    (w.openFlow b).map fun f => (transactionCookieName.toList, f.transaction.toList) := by
  rw [World.jar, World.openFlow, h.jars b]
  cases hlast : w.lastFlow b with
  | none => rfl
  | some f =>
    have hclean := (h.flows f (List.mem_of_find?_eq_some hlast)).2.2
    rw [Option.bind_some, storeCookie_of_clean hclean]
    by_cases htime : w.now < f.startedAt + 600 <;> simp [Option.filter, htime]

/-- **What the callback reads of a browser.** -/
theorem cookieOf_browser (h : Inv d w) {b : Nat} {before after : List CookiePair}
    (hnames : ∀ c ∈ before ++ after, c.name ≠ transactionCookieName.toList) :
    (w.cookieOf (.browser b before after)).bind transactionCookie =
      (w.openFlow b).map Flow.transaction := by
  have hjar := jar_eq h b
  have hvalue : ((w.jar b).map fun c => String.ofList c.value) =
      (w.openFlow b).map Flow.transaction := by
    have := congrArg (Option.map fun pair => String.ofList pair.2) hjar
    simpa [Function.comp_def] using this
  have hfind : ((before ++ (w.jar b).toList ++ after).find? fun c =>
      c.name = transactionCookieName.toList) = w.jar b := by
    have hnone : ∀ l : List CookiePair, (∀ c ∈ l, c.name ≠ transactionCookieName.toList) →
        (l.find? fun c => c.name = transactionCookieName.toList) = none := by
      intro l hl
      rw [List.find?_eq_none]
      simpa using hl
    rw [List.forall_mem_append] at hnames
    rw [List.find?_append, List.find?_append, hnone before hnames.1, hnone after hnames.2]
    cases hsome : w.jar b with
    | none => rfl
    | some c =>
      rw [hsome] at hjar
      obtain ⟨f, -, hpair⟩ := Option.map_eq_some_iff.mp hjar.symm
      simp [← (Prod.mk.inj hpair).1]
  cases hcookies : before ++ (w.jar b).toList ++ after with
  | nil =>
    have hempty : w.jar b = none := by
      rw [hcookies] at hfind
      exact hfind.symm
    rw [← hvalue, hempty]
    simp only [World.cookieOf, hcookies]
    rfl
  | cons c cookies =>
    simp only [World.cookieOf, hcookies, Option.bind_some]
    rw [transactionCookie_cookieHeader, ← hcookies, hfind, hvalue]

/-- A transaction that verifies is that of a flow. -/
theorem exists_flow (h : Inv d w) {transaction : String} {tx : Transaction}
    (hsigned : w.Signed d transaction)
    (hverify : d.auth.verify d.engine Transaction.wire transaction w.now = .ok tx) :
    ∃ f ∈ w.flows, f.transaction = transaction ∧ tx = f.tx ∧
      w.now ≤ f.startedAt + 3600 + d.engine.leeway := by
  obtain ⟨payload, exp, hpayload, htx, -, -⟩ := verify_eq_ok_iff.mp hverify
  rw [d.auth_spec.2.1] at hpayload
  rcases h.minted _ (hsigned payload hpayload) with ⟨f, hf, rfl, hserialized⟩ | ⟨i, -, hserialized⟩
  · obtain ⟨rfl, -, hfresh⟩ := (verify_flow (h.flows f hf).2.1).mp hverify
    exact ⟨f, hf, rfl, rfl, hfresh⟩
  · -- An access token does not read as a transaction.
    rw [show payload = _ from hserialized, claims_not_transaction] at htx
    exact nomatch htx

theorem spent_subset (provider : Provider) (cookie : Option String) (code : String)
    (state : Option String) : w.spent ⊆ w.spentBy d provider cookie code state := by
  unfold World.spentBy
  split
  · split
    · exact List.subset_cons_self _ _
    · exact List.Subset.refl _
  · exact List.Subset.refl _

/-- A request with a code. -/
theorem inv_login (h : Inv d w) {sender : Sender} {route : OAuthRoute} {code : String}
    {state : Option String} {provider : Provider}
    (hunforged : w.Unforged d (.login sender route code state provider))
    (hhonest : provider.Honest d.oauth2.s256 w) :
    Inv d (w.login d sender route code state provider) := by
  unfold World.login
  simp only
  split
  · exact ⟨⟨h.secure.ends, h.secure.once, h.secure.backed, h.secure.admin⟩, h.minted, h.flows,
      h.issued, h.jars, fun l hl => spent_subset _ _ _ _ (h.spent l hl)⟩
  · rename_i req hguard
    obtain ⟨rfl, transaction, tx, htransaction, hverify, rfl, hclient, accessToken, hendpoint,
      profile, hprofile⟩ := oauthGuard_eq_ok.mp hguard
    obtain ⟨g, hg, hcode, hchallenge⟩ := hhonest.granted _ _ hendpoint
    have hspent : code ∉ w.spent := hhonest.unspent _ _ hendpoint
    have hspentBy : code ∈ w.spentBy d provider (w.cookieOf sender) code (some tx.csrf) := by
      have hexchange : d.config.exchange d.oauth2 d.engine d.auth w.now provider.tokenEndpoint
          transaction tx.csrf code = .ok accessToken :=
        bind_eq_ok.mpr ⟨_, tokenRequest_eq_ok_iff.mpr ⟨tx, hverify, rfl, hclient, rfl⟩,
          mapError_eq_ok.mpr hendpoint⟩
      simp only [World.spentBy, htransaction, hexchange]
      exact List.mem_cons_self
    -- The flow: of a browser, the one that its cookie is of; otherwise the one that was signed.
    have hends : ∃ f ∈ w.flows, transaction = f.transaction ∧ tx = f.tx ∧
        w.now ≤ f.startedAt + 3600 + d.engine.leeway ∧
        ∀ b, sender.id = some b → f.browser = some b ∧ w.now < f.startedAt + 600 := by
      cases sender with
      | anybody cookie =>
        obtain ⟨f, hf, hsame, htx, hfresh⟩ := exists_flow h (hunforged.1 _ htransaction) hverify
        exact ⟨f, hf, hsame.symm, htx, hfresh, nofun⟩
      | browser b before after =>
        rw [cookieOf_browser h (hunforged.2 b before after rfl), Option.map_eq_some_iff]
          at htransaction
        obtain ⟨f, hopen, rfl⟩ := htransaction
        obtain ⟨hf, hbrowser, hkept⟩ := of_openFlow hopen
        obtain ⟨htx, -, hfresh⟩ := (verify_flow (h.flows f hf).2.1).mp hverify
        refine ⟨f, hf, rfl, htx, hfresh, fun b' hb' => ?_⟩
        cases hb'
        exact ⟨hbrowser, hkept⟩
    obtain ⟨f, hf, hsame, rfl, hfresh, hbrowser⟩ := hends
    have hmiddle : Inv d { w with
        spent := w.spentBy d provider (w.cookieOf sender) code (some f.tx.csrf)
        logins := ⟨sender.id, transaction, f.tx.csrf, code, w.now⟩ :: w.logins } := by
      refine ⟨⟨List.forall_mem_cons.mpr ⟨?_, h.secure.ends⟩, ?_, h.secure.backed, h.secure.admin⟩,
        h.minted, h.flows, h.issued, h.jars, List.forall_mem_cons.mpr ⟨hspentBy, ?_⟩⟩
      · exact ⟨f, hf, g, hg, hsame, rfl, hcode, hchallenge, (h.flows f hf).1, hfresh, hbrowser⟩
      · rw [List.map_cons, List.nodup_cons]
        refine ⟨fun hmem => ?_, h.secure.once⟩
        obtain ⟨l, hl, hlcode⟩ := List.mem_map.mp hmem
        have hlspent := h.spent l hl
        rw [show l.code = code from hlcode] at hlspent
        exact hspent hlspent
      · exact fun l hl => spent_subset _ _ _ _ (h.spent l hl)
    rw [htransaction, Option.getD_some, Option.getD_some]
    cases route with
    | authorize => exact hmiddle
    | callback => exact inv_issueToken hmiddle _ _ _ fun hadmin => absurd hadmin (by decide)

/-- A request to the resource server: a token that verifies there is an access token. -/
theorem inv_resource (h : Inv d w) {authorization : Option String}
    (hunforged : w.Unforged d (.resource authorization)) :
    Inv d (w.resource d authorization) := by
  unfold World.resource
  simp only
  split
  · exact h
  · rename_i req hguard
    unfold JwtStrategy.authenticate at hguard
    split at hguard
    · exact nomatch hguard
    · rename_i token htoken
      cases hverify : d.resource.verify d.engine (Claims.wire d.uuids) token w.now with
      | error e =>
        rw [hverify] at hguard
        exact nomatch hguard
      | ok claims =>
        rw [hverify] at hguard
        cases hguard
        refine ⟨⟨h.secure.ends, h.secure.once, List.forall_mem_cons.mpr ⟨?_, h.secure.backed⟩,
          h.secure.admin⟩, h.minted, h.flows, h.issued, h.jars, h.spent⟩
        obtain ⟨payload, exp, hpayload, hclaims, hexp, hfresh⟩ := verify_eq_ok_iff.mp hverify
        rw [d.resource_spec.2.1, d.resource_spec.2.2] at hpayload
        rcases h.minted _ (hunforged token htoken payload hpayload) with
          ⟨f, -, -, hserialized⟩ | ⟨i, hi, hserialized⟩
        · rw [show payload = _ from hserialized, transaction_not_claims] at hclaims
          exact nomatch hclaims
        · rw [show payload = _ from hserialized] at hclaims hexp
          obtain ⟨rfl, -⟩ := deserialize_claims.mp hclaims
          obtain ⟨rfl, -⟩ := expOf_claims.mp hexp
          obtain ⟨htime, hexpires⟩ := h.issued i hi
          exact ⟨i, hi, rfl, htime, hexpires ▸ hfresh⟩

theorem inv_step (h : Inv d w) (e : Event) (hunforged : w.Unforged d e) (hhonest : w.Honest d e) :
    Inv d (w.step d e) := by
  cases e with
  | advance δ =>
    exact ⟨⟨h.secure.ends, h.secure.once, h.secure.backed, h.secure.admin⟩, h.minted,
      fun f hf => ⟨le_trans (h.flows f hf).1 (Nat.le_add_right _ _), (h.flows f hf).2⟩,
      fun i hi => ⟨le_trans (h.issued i hi).1 (Nat.le_add_right _ _), (h.issued i hi).2⟩,
      h.jars, h.spent⟩
  | token grantType orgId scope => exact inv_token h grantType orgId scope
  | visit sender csrf verifier => exact inv_visit h sender csrf verifier
  | grant g =>
    exact ⟨⟨fun l hl => (h.secure.ends l hl).mono (List.Subset.refl _)
      (List.subset_cons_self _ _), h.secure.once, h.secure.backed, h.secure.admin⟩, h.minted,
      h.flows, h.issued, h.jars, h.spent⟩
  | login sender route code state provider => exact inv_login h hunforged hhonest
  | resource authorization => exact inv_resource h hunforged

theorem inv_reachable (h : Reachable d w) : Inv d w := by
  induction h with
  | init now => exact inv_init now
  | step e _ hunforged hhonest ih => exact inv_step ih e hunforged hhonest

end Steps

/-! ## A run -/

/-- Identifiers in decimal. -/
def decimalUuids : UuidText where
  toString u := toString u.toNat
  parse text := (parseUnsigned (2 ^ 128) text.toList).map (BitVec.ofNat 128)
  parse_toString u := by
    have hnumeral : Numeral (toString u.toNat).toList u.toNat := by
      rw [Nat.toString_eq_repr, Nat.toList_repr]
      exact numeral_toDigits _
    rw [(parseUnsigned_eq_some (by decide)).mpr ⟨hnumeral, u.isLt⟩]
    simp

/-- An engine that signs one transaction and one access token. -/
def smallEngine : Engine Unit Unit where
  encodingFromSecret _ := ()
  decodingFromSecret _ := ()
  encodingFromEdPem _ := .ok ()
  decodingFromEdPem _ := .ok ()
  encode
    | .edDSA, .object [("csrf", .string "s"), ("pkce", .string "v"), ("exp", .number "3600")], _ =>
      .ok "tx"
    | .edDSA, .object [("org_id", .string "2071726446555925138053121472477528065"),
        ("roles", .array [.string "user"]), ("exp", .number "3600")], _ => .ok "at"
    | _, _, _ => .error "unsupported"
  payload
    | .edDSA, "tx", _ =>
      some (.object [("csrf", .string "s"), ("pkce", .string "v"), ("exp", .number "3600")])
    | .edDSA, "at", _ =>
      some (.object [("org_id", .string "2071726446555925138053121472477528065"),
        ("roles", .array [.string "user"]), ("exp", .number "3600")])
    | _, _, _ => none
  leeway := 60

def smallDeployment : Deployment Unit Unit where
  engine := smallEngine
  oauth2 := ⟨fun _ => true, id⟩
  config := ⟨"id", "secret", "auth", "token", "redirect", "userinfo", []⟩
  uuids := decimalUuids
  render url := url.endpoint
  privatePem := ""
  publicPem := ""
  auth := ⟨some (), (), .edDSA, 3600⟩
  resource := ⟨none, (), .edDSA, 3600⟩
  auth_new := rfl
  resource_new := rfl
  signed encoding _ claims token h := by
    simp only [smallEngine] at h
    split at h
    · cases h
      exact ⟨rfl, cleanValue_iff.mp rfl⟩
    · cases h
      exact ⟨rfl, cleanValue_iff.mp rfl⟩
    · exact nomatch h

/-- Both tokens are signed, and a browser has started a flow. -/
def startedWorld : World :=
  (((World.init 0).step smallDeployment (.token "client_credentials" demoOrg none)).step
    smallDeployment (.visit (.browser 0 [] []) "s" "v")).step
    smallDeployment (.grant ⟨"c", "v"⟩)

theorem reachable_startedWorld : Reachable smallDeployment startedWorld :=
  .step _ (.step _ (.step _ (.init 0) trivial trivial) trivial trivial) trivial trivial

/-- A provider that keeps the codes it has granted and exchanged, and knows every user. -/
def bookkeeper (s256 : String → String) (w : World) : Provider where
  tokenEndpoint request :=
    if (∃ g ∈ w.grants, g.code = request.code ∧ g.challenge = s256 request.verifier) ∧
      request.code ∉ w.spent then .ok "access" else .error "invalid_grant"
  userinfo _ := .ok .null

theorem honest_bookkeeper (s256 : String → String) (w : World) :
    (bookkeeper s256 w).Honest s256 w := by
  have hboth : ∀ request token, (bookkeeper s256 w).tokenEndpoint request = .ok token →
      (∃ g ∈ w.grants, g.code = request.code ∧ g.challenge = s256 request.verifier) ∧
        request.code ∉ w.spent := by
    intro request token h
    by_contra hno
    have hrefused : (bookkeeper s256 w).tokenEndpoint request = .error "invalid_grant" := if_neg hno
    rw [hrefused] at h
    exact nomatch h
  exact ⟨fun request token h => (hboth request token h).1,
    fun request token h => (hboth request token h).2⟩

variable {d : Deployment EK DK} {w : World}

/-- **When the guard lets a browser through**: exactly when the browser comes back to the flow that
it started last, within ten minutes, with its `state`, and the provider exchanges the code for the
verifier of that flow and says who the user is. An honest provider has then granted the code for the
challenge of that flow, and exchanges it for the first time. -/
theorem browser_login_iff (h : Reachable d w) {b : Nat} {before after : List CookiePair}
    (hnames : ∀ c ∈ before ++ after, c.name ≠ transactionCookieName.toList)
    (code : String) (state : Option String) (provider : Provider) :
    let back : AuthRequest Caller :=
      ⟨none, w.cookieOf (.browser b before after), ⟨some code, state⟩, none⟩
    ((∃ req, w.oauthGuard d provider back "" "" = .ok req) ↔
      ∃ f, w.lastFlow b = some f ∧ w.now < f.startedAt + 600 ∧ state = some f.csrf ∧
        f.startedAt + 3600 < 2 ^ 64 ∧ d.config.basicClient d.oauth2 = .ok () ∧
        ∃ accessToken, provider.tokenEndpoint (exchanged d code f.verifier) = .ok accessToken ∧
          ∃ profile, provider.userinfo accessToken = .ok profile) ∧
      (provider.Honest d.oauth2.s256 w → ∀ req, w.oauthGuard d provider back "" "" = .ok req →
        code ∉ w.spent ∧ ∃ f, w.lastFlow b = some f ∧
          ∃ g ∈ w.grants, g.code = code ∧ g.challenge = d.oauth2.s256 f.verifier) := by
  intro back
  have hinv := inv_reachable h
  have hflow : ∀ req, w.oauthGuard d provider back "" "" = .ok req →
      ∃ f, w.lastFlow b = some f ∧ w.now < f.startedAt + 600 ∧ state = some f.csrf ∧
        f.startedAt + 3600 < 2 ^ 64 ∧ d.config.basicClient d.oauth2 = .ok () ∧
        ∃ accessToken, provider.tokenEndpoint (exchanged d code f.verifier) = .ok accessToken ∧
          ∃ profile, provider.userinfo accessToken = .ok profile := by
    intro req hguard
    obtain ⟨-, transaction, tx, htransaction, hverify, rfl, hclient, hanswers⟩ :=
      oauthGuard_eq_ok.mp hguard
    rw [cookieOf_browser hinv hnames] at htransaction
    obtain ⟨f, hopen, rfl⟩ := Option.map_eq_some_iff.mp htransaction
    obtain ⟨hlast, hkept⟩ := openFlow_eq_some.mp hopen
    have hf := hinv.flows f (List.mem_of_find?_eq_some hlast)
    obtain ⟨rfl, hfits, -⟩ := (verify_flow hf.2.1).mp hverify
    exact ⟨f, hlast, hkept, rfl, hfits, hclient, hanswers⟩
  refine ⟨⟨fun ⟨req, hguard⟩ => hflow req hguard, ?_⟩, ?_⟩
  · rintro ⟨f, hlast, hkept, rfl, hfits, hclient, hanswers⟩
    have hf := hinv.flows f (List.mem_of_find?_eq_some hlast)
    have hverify : d.auth.verify d.engine Transaction.wire f.transaction w.now = .ok f.tx :=
      (verify_flow hf.2.1).mpr ⟨rfl, hfits, by omega⟩
    have hcookie : (w.cookieOf (.browser b before after)).bind transactionCookie =
        some f.transaction := by
      rw [cookieOf_browser hinv hnames, openFlow_eq_some.mpr ⟨hlast, hkept⟩, Option.map_some]
    exact ⟨_, oauthGuard_eq_ok.mpr
      ⟨rfl, f.transaction, f.tx, hcookie, hverify, rfl, hclient, hanswers⟩⟩
  · intro hhonest req hguard
    obtain ⟨f, hlast, -, -, -, -, accessToken, hexchanged, -⟩ := hflow req hguard
    exact ⟨hhonest.unspent _ _ hexchanged, f, hlast, hhonest.granted _ _ hexchanged⟩

/-- The browser comes back, with a code that was granted to it. -/
theorem startedWorld_login :
    ∃ req, startedWorld.oauthGuard smallDeployment (bookkeeper id startedWorld) ⟨none,
        startedWorld.cookieOf (.browser 0 [] []), ⟨some "c", some "s"⟩, none⟩ "" "" = .ok req ∧
      "c" ∉ startedWorld.spent := by
  have hnames : ∀ c ∈ ([] : List CookiePair) ++ [], c.name ≠ transactionCookieName.toList := by simp
  obtain ⟨hiff, hgranted⟩ := browser_login_iff reachable_startedWorld (b := 0) hnames "c" (some "s")
    (bookkeeper id startedWorld)
  obtain ⟨req, hreq⟩ := hiff.mpr
    ⟨⟨some 0, "s", "v", "tx", 0⟩, rfl, by decide, rfl, by decide, rfl, "access", rfl, .null, rfl⟩
  exact ⟨req, hreq, (hgranted (honest_bookkeeper id startedWorld) req hreq).1⟩

end Nestrs.Auth
