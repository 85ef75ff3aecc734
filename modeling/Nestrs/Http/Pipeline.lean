import Nestrs.Authz.Ability
import Nestrs.Lib.Except

/-!
# Requests, guards and responses

What the authorization crates need of the HTTP surface: `Guard` and `GuardEndpoint`
(`crates/nestrs-middleware/src/guard.rs`), and the guard that attaches the caller's ability,
`AbilityGuard` (`crates/nestrs-authz-http/src/guard.rs`). A guard may write to the request's
extensions and then refuse it; `AbilityGuard` stores the `Arc<Ability>` that the extractors, the
shaper and the GraphQL seeds read back.

Of the request's extensions the ability is kept by name; the rest of the request is a parameter.
-/

namespace Nestrs.Http

open Nestrs.Lib Nestrs.Authz

/-- `poem::http::Method`. -/
inductive Method where
  | get
  | head
  | options
  | trace
  | post
  | put
  | patch
  | delete
  | connect
deriving DecidableEq, Repr

/-- `poem::Error`: the status and the text it answers with. -/
structure PoemError where
  status : Nat
  message : String
deriving DecidableEq, Repr

/-- The body of a response. -/
inductive Body (β : Type) where
  | empty
  | text (message : String)
  | json (value : β)

/-- `poem::Response`. -/
structure Response (β : Type) where
  status : Nat
  body : Body β

/-- `StatusCode::is_success`. -/
def isSuccess (status : Nat) : Bool := 200 ≤ status && status < 300

/-- `StatusCode::is_redirection`. -/
def isRedirection (status : Nat) : Bool := 300 ≤ status && status < 400

/-- A request: the `Arc<Ability>` among its extensions, and the rest of it. -/
structure Request (ρ : Type) where
  ability : Option Ability
  rest : ρ

/-- The response a guard refuses a request with. -/
structure Refusal where
  status : Nat
  message : String
deriving DecidableEq, Repr

/-- `Guard::check`: the request as the guard leaves it, and whether it passes. -/
abbrev Guard (ρ : Type) : Type := Request ρ → Request ρ × Except Refusal Unit

/-- A chain of guards, in the order they run: a refusal ends it. -/
def runGuards {ρ : Type} : List (Guard ρ) → Request ρ → Request ρ × Except Refusal Unit
  | [], req => (req, .ok ())
  | guard :: guards, req =>
    match guard req with
    | (req, .ok ()) => runGuards guards req
    | (req, .error refusal) => (req, .error refusal)

/-- `AbilityGuard<F>`: read the actor from the request, build the ability its factory defines. -/
def abilityGuard {ρ Actor : Type} (actor : ρ → Option Actor) (define : Actor → List RuleSpec) :
    Guard ρ := fun req =>
  match actor req.rest with
  | none => (req, .error ⟨500, "AbilityGuard requires an authentication guard to run first"⟩)
  | some a => ({ req with ability := some (buildAbility (define a)) }, .ok ())

end Nestrs.Http
