import Nestrs.Authz.Ability
import Nestrs.Lib.Except
import Nestrs.Lib.Numeral

/-!
# Signed tokens

Model of `crates/nestrs-auth/src/jwt.rs` and `error.rs`. A `JwtService` holds a key to verify tokens
with and, unless it is verify-only, one to sign them.

`jsonwebtoken` is a parameter, `Engine`: what it makes of keys, what a token is whose signature
verifies, and its leeway. `decode` puts these together as the crate documents it: the signature,
then the claims, which must be of the type asked for and carry an `exp`, then the expiry.

* `verify_eq_ok_iff`: what a token that verifies is;
* `sign_eq_ok_iff`: a service that holds no key to sign with signs nothing.
-/

namespace Nestrs.Auth

open Nestrs.Lib Nestrs.Authz

/-- `AuthError`. -/
inductive AuthError where
  | missingCredentials
  | invalidToken
  | expired
  | failed (message : String)
deriving DecidableEq, Repr

/-- Its `Display`. -/
def AuthError.toString : AuthError → String
  | missingCredentials => "missing credentials"
  | invalidToken => "invalid token"
  | expired => "token expired"
  | failed message => "authentication failed: " ++ message

/-- `Algorithm`, as far as it is used. -/
inductive Algorithm where
  | hs256
  | edDSA
deriving DecidableEq, Repr

/-- `JwtKey`. -/
inductive JwtKey where
  | hmac (secret : String)
  | pem (privatePem : Option String) (publicPem : String)
deriving DecidableEq, Repr

/-- `JwtOptions`. -/
structure JwtOptions where
  key : JwtKey
  algorithm : Algorithm
  expiresIn : Nat
deriving DecidableEq, Repr

namespace JwtOptions

/-- `JwtOptions::new`. -/
def new (secret : String) : JwtOptions := ⟨.hmac secret, .hs256, 3600⟩

/-- `JwtOptions::eddsa`. -/
def eddsa (privatePem publicPem : String) : JwtOptions :=
  ⟨.pem (some privatePem) publicPem, .edDSA, 3600⟩

/-- `JwtOptions::eddsa_verify`. -/
def eddsaVerify (publicPem : String) : JwtOptions := ⟨.pem none publicPem, .edDSA, 3600⟩

end JwtOptions

/-- `jsonwebtoken`: keys from secrets and PEM texts, the tokens that `encode` makes, the claims of a
token whose header and signature verify, and the leeway of a default `Validation`. -/
structure Engine (EK DK : Type) where
  encodingFromSecret : String → EK
  decodingFromSecret : String → DK
  encodingFromEdPem : String → Except String EK
  decodingFromEdPem : String → Except String DK
  encode : Algorithm → Json → EK → Except String String
  payload : Algorithm → String → DK → Option Json
  leeway : Nat

/-- `Serialize` and `DeserializeOwned`. -/
structure Wire (C : Type) where
  serialize : C → Json
  deserialize : Json → Option C

/-- The field of a JSON object, as the derived `Deserialize` of a struct finds it: fields that are
not asked for are passed over, and a field that is there twice is refused. -/
def jsonField (name : String) : Json → Option Json
  | .object map =>
    match map.filter fun entry => entry.1 = name with
    | [(_, value)] => some value
    | _ => none
  | _ => none

/-- `u64` as JSON. -/
def ofU64 (n : Nat) : Json := .number (toString n)

def asU64 : Json → Option Nat
  | .number text => parseUnsigned (2 ^ 64) text.toList
  | _ => none

def asString : Json → Option String
  | .string s => some s
  | _ => none

theorem asU64_ofU64 {n m : Nat} : asU64 (ofU64 n) = some m ↔ m = n ∧ n < 2 ^ 64 := by
  have hnumeral : Numeral (toString n).toList n := by
    rw [Nat.toString_eq_repr, Nat.toList_repr]
    exact numeral_toDigits n
  rw [ofU64, asU64, parseUnsigned_eq_some (by decide)]
  constructor
  · rintro ⟨h, hm⟩
    cases h.value_unique hnumeral
    exact ⟨rfl, hm⟩
  · rintro ⟨rfl, hm⟩
    exact ⟨hnumeral, hm⟩

/-- The `exp` claim. -/
def expOf (payload : Json) : Option Nat := (jsonField "exp" payload).bind asU64

/-- The kinds of error of `decode` that `verify` tells apart. -/
inductive ErrorKind where
  | expiredSignature
  | other
deriving DecidableEq, Repr

variable {EK DK C : Type}

/-- `decode`. -/
def Engine.decode (engine : Engine EK DK) (wire : Wire C) (algorithm : Algorithm)
    (token : String) (decoding : DK) (now : Nat) : Except ErrorKind C :=
  match engine.payload algorithm token decoding with
  | none => .error .other
  | some payload =>
    match wire.deserialize payload with
    | none => .error .other
    | some claims =>
      match expOf payload with
      | none => .error .other
      | some exp => if exp + engine.leeway < now then .error .expiredSignature else .ok claims

/-- `JwtService`; the algorithm is that of its header and of its validation. -/
structure JwtService (EK DK : Type) where
  encoding : Option EK
  decoding : DK
  algorithm : Algorithm
  expiresIn : Nat

namespace JwtService

/-- `JwtService::new`. -/
def new (engine : Engine EK DK) (options : JwtOptions) : Except AuthError (JwtService EK DK) :=
  match options.key with
  | .hmac secret =>
    .ok ⟨some (engine.encodingFromSecret secret), engine.decodingFromSecret secret,
      options.algorithm, options.expiresIn⟩
  | .pem privatePem publicPem =>
    match engine.decodingFromEdPem publicPem with
    | .error e => .error (.failed ("invalid JWT public key: " ++ e))
    | .ok decoding =>
      match privatePem with
      | none => .ok ⟨none, decoding, options.algorithm, options.expiresIn⟩
      | some pem =>
        match engine.encodingFromEdPem pem with
        | .error e => .error (.failed ("invalid JWT private key: " ++ e))
        | .ok encoding => .ok ⟨some encoding, decoding, options.algorithm, options.expiresIn⟩

variable (jwt : JwtService EK DK)

/-- `JwtService::sign`. -/
def sign (engine : Engine EK DK) (wire : Wire C) (claims : C) : Except AuthError String :=
  match jwt.encoding with
  | none => .error (.failed "this JwtService is verify-only — no signing key configured")
  | some encoding => (engine.encode jwt.algorithm (wire.serialize claims) encoding).mapError .failed

/-- `JwtService::verify`. -/
def verify (engine : Engine EK DK) (wire : Wire C) (token : String) (now : Nat) :
    Except AuthError C :=
  (engine.decode wire jwt.algorithm token jwt.decoding now).mapError fun
    | .expiredSignature => .expired
    | .other => .invalidToken

/-- `JwtService::expiry`. -/
def expiry (now : Nat) : Nat := now + jwt.expiresIn

/-- `JwtService::ttl_secs`. -/
def ttlSecs : Nat := jwt.expiresIn

end JwtService

section Reading

variable {engine : Engine EK DK} {wire : Wire C} {jwt : JwtService EK DK} {token : String}
  {now : Nat} {claims : C}

/-- **What verifies**: a token that is signed, of the type asked for, and not expired. -/
theorem verify_eq_ok_iff : jwt.verify engine wire token now = .ok claims ↔
    ∃ payload exp, engine.payload jwt.algorithm token jwt.decoding = some payload ∧
      wire.deserialize payload = some claims ∧ expOf payload = some exp ∧
      now ≤ exp + engine.leeway := by
  rw [JwtService.verify, mapError_eq_ok, Engine.decode]
  constructor
  · intro h
    split at h
    · exact nomatch h
    · rename_i payload hpayload
      split at h
      · exact nomatch h
      · rename_i claims' hclaims
        split at h
        · exact nomatch h
        · rename_i exp hexp
          split at h
          · exact nomatch h
          · rename_i hfresh
            cases h
            exact ⟨payload, exp, hpayload, hclaims, hexp, Nat.le_of_not_lt hfresh⟩
  · rintro ⟨payload, exp, hpayload, hclaims, hexp, hfresh⟩
    simp [hpayload, hclaims, hexp, Nat.not_lt.mpr hfresh]

theorem sign_eq_ok_iff : jwt.sign engine wire claims = .ok token ↔
    ∃ encoding, jwt.encoding = some encoding ∧
      engine.encode jwt.algorithm (wire.serialize claims) encoding = .ok token := by
  unfold JwtService.sign
  cases jwt.encoding with
  | none => exact ⟨nofun, nofun⟩
  | some encoding => simp [mapError_eq_ok]

end Reading

end Nestrs.Auth
