import Nestrs.Auth.Jwt
import Nestrs.Orm.Condition

/-!
# Authentication strategies

Model of `crates/nestrs-auth` (`strategy.rs`, `guard.rs`, `oauth.rs`) and of the strategy that the
auth app writes against it (`apps/auth/src/oauth/strategy.rs`).

* A strategy makes a principal of a request, or a challenge. `AuthGuard` puts the principal into the
  request, or answers in the place of the route.
* `JwtStrategy` verifies a bearer token. `OAuthStrategy` starts a flow when there is no code, and
  otherwise ends one: the `state` and the verifier of the flow come back in a signed cookie.
* The provider, the `oauth2` crate and the random numbers are parameters. What an authorization URL
  carries is kept as data, not as text.

Results:
* **`transactionCookie_cookieHeader`**: the callback reads the first cookie of its name, wherever in
  the header it is;
* **`tokenRequest_eq_ok_iff`**: the token endpoint is asked only for a flow of this server whose
  `state` came back.
-/

namespace Nestrs.Auth

open Nestrs.Lib Nestrs.Authz Nestrs.Orm

/-! ## Requests and responses -/

/-- `CallbackQuery`. -/
structure CallbackQuery where
  code : Option String
  state : Option String
deriving DecidableEq, Repr

/-- What strategies read of a request: the headers that are there and printable, the query, and the
principal among its extensions. -/
structure AuthRequest (P : Type) where
  authorization : Option String
  cookie : Option String
  query : CallbackQuery
  principal : Option P

/-- A response: status, headers, body. -/
structure Response where
  status : Nat
  headers : List (String × String)
  body : String
deriving DecidableEq, Repr

/-- `AuthError::into_response`. -/
def AuthError.intoResponse (e : AuthError) : Response :=
  ⟨401, [("www-authenticate", "Bearer")], e.toString⟩

/-- `Outcome`. -/
inductive Outcome (P : Type) where
  | authenticated (principal : P)
  | challenge (response : Response)

variable {EK DK P C : Type}

/-- `AuthGuard::check`, on what its strategy decides. -/
def authGuard (decided : Except AuthError (Outcome P)) (req : AuthRequest P) :
    Except Response (AuthRequest P) :=
  match decided with
  | .ok (.authenticated principal) => .ok { req with principal := some principal }
  | .ok (.challenge response) => .error response
  | .error e => .error e.intoResponse

/-! ## Bearer tokens -/

/-- `bearer_token`. -/
def bearerToken (req : AuthRequest P) : Option String :=
  match req.authorization with
  | none => none
  | some value =>
    match value.toList.dropPrefix? "Bearer ".toList with
    | none => none
    | some rest => if (trim rest).isEmpty then none else some (String.ofList (trim rest))

/-- `JwtStrategy::authenticate`. -/
def JwtStrategy.authenticate (engine : Engine EK DK) (wire : Wire C) (jwt : JwtService EK DK)
    (req : AuthRequest C) (now : Nat) : Except AuthError (Outcome C) :=
  match bearerToken req with
  | none => .error .missingCredentials
  | some token => (jwt.verify engine wire token now).map .authenticated

/-! ## The authorization code flow -/

/-- `OAuth2Config`. -/
structure OAuth2Config where
  clientId : String
  clientSecret : String
  authUrl : String
  tokenUrl : String
  redirectUrl : String
  userinfoUrl : String
  scopes : List String

/-- `Transaction`. -/
structure Transaction where
  csrf : String
  pkce : String
  exp : Nat
deriving DecidableEq, Repr

/-- The derived `Serialize` and `Deserialize` of `Transaction`. -/
def Transaction.wire : Wire Transaction where
  serialize tx :=
    .object [("csrf", .string tx.csrf), ("pkce", .string tx.pkce), ("exp", ofU64 tx.exp)]
  deserialize payload := do
    let csrf ← (jsonField "csrf" payload).bind asString
    let pkce ← (jsonField "pkce" payload).bind asString
    let exp ← expOf payload
    some ⟨csrf, pkce, exp⟩

/-- What the authorization URL carries. -/
structure AuthorizationUrl where
  endpoint : String
  clientId : String
  redirectUrl : String
  scopes : List String
  state : String
  challenge : String
deriving DecidableEq, Repr

/-- `Authorization`. -/
structure Authorization where
  url : AuthorizationUrl
  transaction : String

/-- What `exchange` sends to the token endpoint. -/
structure TokenRequest where
  endpoint : String
  clientId : String
  clientSecret : String
  code : String
  verifier : String
deriving DecidableEq, Repr

/-- The `oauth2` crate: which URLs parse, and the `S256` challenge of a verifier. -/
structure OAuth2 where
  validUrl : String → Bool
  s256 : String → String

namespace OAuth2Config

variable (config : OAuth2Config)

/-- `OAuth2Client::basic_client`. -/
def basicClient (oauth2 : OAuth2) : Except AuthError Unit :=
  if !oauth2.validUrl config.authUrl then .error (.failed ("invalid OAuth URL: " ++ config.authUrl))
  else if !oauth2.validUrl config.tokenUrl then
    .error (.failed ("invalid OAuth URL: " ++ config.tokenUrl))
  else if !oauth2.validUrl config.redirectUrl then
    .error (.failed ("invalid OAuth URL: " ++ config.redirectUrl))
  else .ok ()

/-- `OAuth2Client::authorize`, with the random numbers that it draws. -/
def authorize (oauth2 : OAuth2) (engine : Engine EK DK) (jwt : JwtService EK DK) (now : Nat)
    (csrf verifier : String) : Except AuthError Authorization := do
  config.basicClient oauth2
  let transaction ← jwt.sign engine Transaction.wire ⟨csrf, verifier, jwt.expiry now⟩
  .ok ⟨⟨config.authUrl, config.clientId, config.redirectUrl, config.scopes, csrf,
    oauth2.s256 verifier⟩, transaction⟩

/-- `OAuth2Client::exchange`, up to the request to the token endpoint. -/
def tokenRequest (oauth2 : OAuth2) (engine : Engine EK DK) (jwt : JwtService EK DK) (now : Nat)
    (transaction state code : String) : Except AuthError TokenRequest := do
  let tx ← jwt.verify engine Transaction.wire transaction now
  if tx.csrf ≠ state then .error (.failed "OAuth state mismatch")
  else do
    config.basicClient oauth2
    .ok ⟨config.tokenUrl, config.clientId, config.clientSecret, code, tx.pkce⟩

/-- `OAuth2Client::exchange`. -/
def exchange (oauth2 : OAuth2) (engine : Engine EK DK) (jwt : JwtService EK DK) (now : Nat)
    (tokenEndpoint : TokenRequest → Except String String) (transaction state code : String) :
    Except AuthError String := do
  let request ← config.tokenRequest oauth2 engine jwt now transaction state code
  (tokenEndpoint request).mapError .failed

end OAuth2Config

/-! ## The strategy of the auth app -/

/-- `Role`. -/
inductive Role where
  | admin
  | user
deriving DecidableEq, Repr

/-- `Caller`. -/
structure Caller where
  orgId : Uuid
  roles : List Role
deriving DecidableEq, Repr

def transactionCookieName : String := "oauth_tx"

/-- `transaction_cookie`, on the header. -/
def transactionCookie (header : String) : Option String :=
  (header.toList.splitOn ';').findSome? fun pair =>
    match (trim pair).dropPrefix? transactionCookieName.toList with
    | none => none
    | some rest => (rest.dropPrefix? ['=']).map String.ofList

/-- The value of the `Set-Cookie` header. -/
def setCookie (transaction : String) : String :=
  transactionCookieName ++ "=" ++ transaction ++ "; HttpOnly; SameSite=Lax; Path=/; Max-Age=600"

/-- The provider, as the app talks to it. -/
structure Provider where
  tokenEndpoint : TokenRequest → Except String String
  userinfo : String → Except String Json

/-- The organisation of every caller that comes in through the provider. -/
def demoOrg : Uuid := 0x018f0000000070008000000000000001

/-- `OAuthStrategy::authenticate`. `render` writes an authorization URL. -/
def OAuthStrategy.authenticate (config : OAuth2Config) (oauth2 : OAuth2) (engine : Engine EK DK)
    (jwt : JwtService EK DK) (render : AuthorizationUrl → String) (provider : Provider)
    (req : AuthRequest Caller) (now : Nat) (csrf verifier : String) :
    Except AuthError (Outcome Caller) :=
  match req.query.code with
  | none => do
    let authorization ← config.authorize oauth2 engine jwt now csrf verifier
    .ok (.challenge ⟨302, [("location", render authorization.url),
      ("set-cookie", setCookie authorization.transaction)], ""⟩)
  | some code =>
    match req.query.state with
    | none => .error (.failed "OAuth callback missing state")
    | some state =>
      match req.cookie.bind transactionCookie with
      | none => .error (.failed "OAuth transaction cookie missing")
      | some transaction => do
        let accessToken ←
          config.exchange oauth2 engine jwt now provider.tokenEndpoint transaction state code
        let _ ← (provider.userinfo accessToken).mapError .failed
        .ok (.authenticated ⟨demoOrg, [.user]⟩)

/-! ## The cookie -/

section Cookie

/-- A cookie of a `Cookie` header: neither part has a blank or a separator in it. -/
structure CookiePair where
  name : List Char
  value : List Char
  name_clean : ∀ c ∈ name, isWhitespace c = false ∧ c ≠ ';' ∧ c ≠ '='
  value_clean : ∀ c ∈ value, isWhitespace c = false ∧ c ≠ ';'

/-- A value without blanks and separators. -/
def cleanValue (value : List Char) : Bool := value.all fun c => !isWhitespace c && c != ';'

theorem cleanValue_iff {value : List Char} :
    cleanValue value = true ↔ ∀ c ∈ value, isWhitespace c = false ∧ c ≠ ';' := by
  simp [cleanValue]

theorem transactionCookieName_clean :
    ∀ c ∈ transactionCookieName.toList, isWhitespace c = false ∧ c ≠ ';' ∧ c ≠ '=' := by
  have hall : (transactionCookieName.toList.all fun c =>
      !isWhitespace c && (c != ';' && c != '=')) = true := rfl
  simpa only [List.all_eq_true, Bool.and_eq_true, Bool.not_eq_true', bne_iff_ne] using hall

def CookiePair.text (cookie : CookiePair) : List Char := cookie.name ++ '=' :: cookie.value

/-- The header that a browser sends. -/
def cookieHeader : List CookiePair → List Char
  | [] => []
  | cookie :: cookies => [';'].intercalate (cookie.text :: cookies.map fun c => ' ' :: c.text)

theorem CookiePair.clean (cookie : CookiePair) {c : Char} (hc : c ∈ cookie.text) :
    isWhitespace c = false ∧ c ≠ ';' := by
  rcases List.mem_append.mp hc with hc | hc
  · exact ⟨(cookie.name_clean c hc).1, (cookie.name_clean c hc).2.1⟩
  · rcases List.mem_cons.mp hc with rfl | hc
    · decide
    · exact cookie.value_clean c hc

theorem CookiePair.trim_text (cookie : CookiePair) (u : List Char)
    (hu : ∀ c ∈ u, isWhitespace c = true) : trim (u ++ cookie.text) = cookie.text := by
  rw [trim, trimBlanks_eq_iff]
  refine ⟨⟨fun c hc => ?_, fun c hc => ?_⟩, u, [], by simp, hu, nofun⟩
  · exact (cookie.clean (List.mem_of_mem_head? hc)).1
  · exact (cookie.clean (List.mem_of_mem_getLast? hc)).1

/-- What the callback looks for in a pair. -/
def transactionValue (pair : List Char) : Option String :=
  match (trim pair).dropPrefix? transactionCookieName.toList with
  | none => none
  | some rest => (rest.dropPrefix? ['=']).map String.ofList

theorem transactionCookie_eq (header : String) :
    transactionCookie header = (header.toList.splitOn ';').findSome? transactionValue := rfl

theorem dropPrefix_eq_some {l p r : List Char} : l.dropPrefix? p = some r ↔ l = p ++ r := by
  rw [List.dropPrefix?_eq_some_iff]
  constructor
  · rintro ⟨p', hl, hp⟩
    rw [← eq_of_beq hp, hl]
  · intro h
    exact ⟨p, h, beq_self_eq_true p⟩

theorem splitAt_eq {name name' value value' : List Char} (h : '=' ∉ name) (h' : '=' ∉ name')
    (heq : name ++ '=' :: value = name' ++ '=' :: value') : name = name' ∧ value = value' := by
  induction name generalizing name' with
  | nil =>
    cases name' with
    | nil => exact ⟨rfl, (List.cons.inj heq).2⟩
    | cons c name' => exact absurd ((List.cons.inj heq).1 ▸ List.mem_cons_self) h'
  | cons c name ih =>
    cases name' with
    | nil => exact absurd ((List.cons.inj heq).1 ▸ List.mem_cons_self) h
    | cons c' name' =>
      obtain ⟨rfl, htail⟩ := List.cons.inj heq
      have hrest := ih (fun hc => h (List.mem_cons_of_mem c hc))
        (fun hc => h' (List.mem_cons_of_mem c hc)) htail
      exact ⟨congrArg (c :: ·) hrest.1, hrest.2⟩

/-- A pair is looked at by its name, with a blank in front or not. -/
theorem transactionValue_pair (cookie : CookiePair) (u : List Char)
    (hu : ∀ c ∈ u, isWhitespace c = true) : transactionValue (u ++ cookie.text) =
      if cookie.name = transactionCookieName.toList then some (String.ofList cookie.value)
      else none := by
  have hname : '=' ∉ cookie.name := fun hc => (cookie.name_clean _ hc).2.2 rfl
  rw [transactionValue, cookie.trim_text u hu]
  cases hfirst : cookie.text.dropPrefix? transactionCookieName.toList with
  | none =>
    rw [if_neg]
    intro heq
    have htext : cookie.text = transactionCookieName.toList ++ '=' :: cookie.value := by
      rw [CookiePair.text, heq]
    exact nomatch hfirst.symm.trans (dropPrefix_eq_some.mpr htext)
  | some rest =>
    cases hsecond : rest.dropPrefix? ['='] with
    | none =>
      rw [if_neg]
      · simp [hsecond]
      · intro heq
        have htext := dropPrefix_eq_some.mp hfirst
        rw [CookiePair.text, heq, List.append_cancel_left_eq] at htext
        have hsome := dropPrefix_eq_some.mpr (show rest = ['='] ++ cookie.value from htext.symm)
        exact nomatch hsecond.symm.trans hsome
    | some value =>
      have hrest := dropPrefix_eq_some.mp hsecond
      have htext := dropPrefix_eq_some.mp hfirst
      rw [hrest] at htext
      obtain ⟨heq, hvalue⟩ := splitAt_eq hname (by decide) htext
      rw [if_pos heq, hvalue]
      simp [hsecond]

theorem findSome_named (name : List Char) (cookies : List CookiePair) :
    (cookies.findSome? fun c => if c.name = name then some (String.ofList c.value) else none) =
      (cookies.find? fun c => c.name = name).map fun c => String.ofList c.value := by
  induction cookies with
  | nil => rfl
  | cons cookie cookies ih =>
    rw [List.findSome?_cons, List.find?_cons, ih]
    by_cases h : cookie.name = name <;> simp [h]

/-- **The cookie that the callback reads is the first of its name**, wherever in the header of the
browser it is: in particular the one that the redirect has set. -/
theorem transactionCookie_cookieHeader (cookies : List CookiePair) :
    transactionCookie (String.ofList (cookieHeader cookies)) =
      (cookies.find? fun c => c.name = transactionCookieName.toList).map
        fun c => String.ofList c.value := by
  cases cookies with
  | nil => decide
  | cons cookie cookies =>
    have hpieces : ∀ piece ∈ cookie.text :: cookies.map (fun c => ' ' :: c.text), ';' ∉ piece := by
      intro piece hpiece hc
      rcases List.mem_cons.mp hpiece with rfl | hpiece
      · exact (cookie.clean hc).2 rfl
      · obtain ⟨other, -, rfl⟩ := List.mem_map.mp hpiece
        rcases List.mem_cons.mp hc with h | hc
        · exact absurd h (by decide)
        · exact (other.clean hc).2 rfl
    have hfirst := transactionValue_pair cookie [] nofun
    have hrest : transactionValue ∘ (fun c : CookiePair => ' ' :: c.text) = fun c =>
        if c.name = transactionCookieName.toList then some (String.ofList c.value) else none := by
      funext other
      exact transactionValue_pair other [' '] fun c hc => by rw [List.mem_singleton.mp hc]; rfl
    rw [List.nil_append] at hfirst
    rw [transactionCookie_eq, String.toList_ofList, cookieHeader,
      List.splitOn_intercalate _ hpieces (List.cons_ne_nil _ _), List.findSome?_cons, hfirst,
      List.findSome?_map, hrest, findSome_named, List.find?_cons]
    by_cases h : cookie.name = transactionCookieName.toList <;> simp [h]

end Cookie

/-! ## What the token endpoint is asked -/

section Exchange

variable {config : OAuth2Config} {oauth2 : OAuth2} {engine : Engine EK DK} {jwt : JwtService EK DK}
  {now : Nat} {transaction state code : String} {request : TokenRequest}

/-- **The token endpoint is asked only with the verifier of a transaction that verifies, and whose
`state` came back.** -/
theorem tokenRequest_eq_ok_iff :
    config.tokenRequest oauth2 engine jwt now transaction state code = .ok request ↔
      ∃ tx : Transaction, jwt.verify engine Transaction.wire transaction now = .ok tx ∧
        tx.csrf = state ∧ config.basicClient oauth2 = .ok () ∧
        request = ⟨config.tokenUrl, config.clientId, config.clientSecret, code, tx.pkce⟩ := by
  unfold OAuth2Config.tokenRequest
  rw [bind_eq_ok]
  constructor
  · rintro ⟨tx, hverify, h⟩
    split at h
    · exact nomatch h
    · rename_i hcsrf
      obtain ⟨⟨⟩, hclient, h⟩ := bind_eq_ok.mp h
      exact ⟨tx, hverify, not_not.mp hcsrf, hclient, (Except.ok.inj h).symm⟩
  · rintro ⟨tx, hverify, hcsrf, hclient, rfl⟩
    refine ⟨tx, hverify, ?_⟩
    rw [if_neg (not_not.mpr hcsrf)]
    exact bind_eq_ok.mpr ⟨(), hclient, rfl⟩

end Exchange

end Nestrs.Auth
