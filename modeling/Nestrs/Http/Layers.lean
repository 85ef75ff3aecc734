import Nestrs.Http.Pipeline
import Mathlib.Data.List.Basic

/-!
# The layers around a route

Model of how `#[controller]` and `#[routes]` wrap a handler
(`crates/nestrs-http-macros/src/controller.rs`, `routes.rs`) and of the wrapper endpoints themselves
(`guard.rs`, `interceptor.rs` and `filter.rs` of `crates/nestrs-middleware`,
`crates/nestrs-http/src/shaper.rs`).

* An endpoint takes a request to a result and leaves a trace. The code a layer runs is the
  application's: a guard rewrites the request and lets it pass or answers it; an interceptor answers
  it, or calls `next` with a request of its choosing and does something with the result (`Next::run`
  consumes it, so at most once); a shaper captures, then awaits the inner future or not; a filter
  maps an error. What they compute is arbitrary.
* `wrapLayer` is the loop of the function of that name. `controllerLayers` is the other scheme: a
  list of statements, each rebinding `__ep` to a boxed endpoint. Both go through their list
  backwards. `guardedHandler` and `nestrsControllerLayers` apply them kind by kind, `mount` puts one
  around the other.
* An `Output` is a response here: `map_to_response` and `into_response` then change nothing, and
  boxing does not either. poem's `data` inserts the value, then calls. What poem does between the
  two levels (routing, path parameters, the controller among the data) is a parameter.

The trace has an inward event when a request comes to a layer, with what the layer did with it, and
an outward event when a result leaves one. `wayIn` is the run it is compared with: the layers in the
order they are declared in, each asked with the request as the one before has let it go on.

Results:
* `controllerLayers_eq_wrapLayer`: the two schemes nest alike;
* `ordered_wrapLayer`: a list of layers is met in the order it is listed in;
* **`request_order`**: the trace of every request, for all lists at both levels;
* `mount_guards`: a route with guards only is served as `runGuards` says.
-/

namespace Nestrs.Http.Layers

variable {ρ R E N M : Type}

/-! ## The code of an application -/

/-- What the layers work with: a request `ρ`, a response `R`, an error `E`. -/
abbrev Result (E R : Type) : Type := Except E R

/-- `Guard`, and the path it is listed by. -/
structure Guard (N ρ R : Type) where
  name : N
  check : ρ → ρ × Except R Unit

/-- What an interceptor does with a request. -/
inductive Interception (ρ E R : Type) where
  | answer (result : Result E R)
  | next (req : ρ) (after : Result E R → Result E R)

/-- `Interceptor`. -/
structure Interceptor (N ρ E R : Type) where
  name : N
  intercept : ρ → Interception ρ E R

/-- `Filter`; of the request it sees a snapshot. -/
structure Filter (N ρ E R : Type) where
  name : N
  filter : ρ → E → R

/-- What a shaper does with the inner future. -/
inductive Shaping (E R : Type) where
  | answer (result : Result E R)
  | awaits (after : Result E R → Result E R)

/-- `RouteResponseShaper`. -/
structure RouteResponseShaper (ρ E R : Type) where
  Captured : Type
  capture : ρ → Captured
  run : Captured → Shaping E R

/-! ## Traces -/

/-- The two places a layer can be declared. -/
inductive Level where
  | controller
  | route
deriving DecidableEq, Repr

/-- What a request meets on its way in. The flags say whether it went on from there. -/
inductive Inward (N M : Type) where
  | guard (level : Level) (name : N) (passed : Bool)
  | interceptor (level : Level) (name : N) (next : Bool)
  | metadata (value : M)
  | capture (awaits : Bool)
  | handler
deriving DecidableEq, Repr

/-- A result on its way out. -/
inductive Outward (N : Type) where
  | interceptor (level : Level) (name : N)
  | shape
  | filter (level : Level) (name : N)
deriving DecidableEq, Repr

inductive Event (N M : Type) where
  | inward (e : Inward N M)
  | outward (e : Outward N)
deriving DecidableEq, Repr

/-- What a layer that let the request go on does with the result. -/
def Inward.back : Inward N M → Option (Outward N)
  | interceptor level name true => some (.interceptor level name)
  | capture true => some .shape
  | _ => none

/-- `poem::Endpoint`, with its trace. -/
abbrev Endpoint (N M ρ E R : Type) : Type := ρ → List (Event N M) × Result E R

/-! ## The wrappers -/

/-- `GuardEndpoint::call`. -/
def guardEndpoint (level : Level) (inner : Endpoint N M ρ E R) (guard : Guard N ρ R) :
    Endpoint N M ρ E R := fun req =>
  match guard.check req with
  | (req, .ok ()) =>
    let (trace, result) := inner req
    (.inward (.guard level guard.name true) :: trace, result)
  | (_, .error response) => ([.inward (.guard level guard.name false)], .ok response)

/-- `InterceptorEndpoint::call`. -/
def interceptorEndpoint (level : Level) (inner : Endpoint N M ρ E R)
    (interceptor : Interceptor N ρ E R) : Endpoint N M ρ E R := fun req =>
  match interceptor.intercept req with
  | .answer result => ([.inward (.interceptor level interceptor.name false)], result)
  | .next req after =>
    let (trace, result) := inner req
    (.inward (.interceptor level interceptor.name true) :: trace ++
      [.outward (.interceptor level interceptor.name)], after result)

/-- `FilterEndpoint::call`. -/
def filterEndpoint (level : Level) (inner : Endpoint N M ρ E R) (filter : Filter N ρ E R) :
    Endpoint N M ρ E R := fun req =>
  match inner req with
  | (trace, .ok response) => (trace, .ok response)
  | (trace, .error err) =>
    (trace ++ [.outward (.filter level filter.name)], .ok (filter.filter req err))

/-- `ShapedEndpoint::call`. -/
def shaped (inner : Endpoint N M ρ E R) (shaper : RouteResponseShaper ρ E R) :
    Endpoint N M ρ E R := fun req =>
  match shaper.run (shaper.capture req) with
  | .answer result => ([.inward (.capture false)], result)
  | .awaits after =>
    let (trace, result) := inner req
    (.inward (.capture true) :: trace ++ [.outward .shape], after result)

/-- poem's `data` around a route: the value is in the request before the inner endpoint is. -/
def data (insert : M → ρ → ρ) (inner : Endpoint N M ρ E R) (value : M) : Endpoint N M ρ E R :=
  fun req =>
    let (trace, result) := inner (insert value req)
    (.inward (.metadata value) :: trace, result)

/-- `EndpointExt::map_to_response`, on an endpoint that has a response already. -/
def mapToResponse (ep : Endpoint N M ρ E R) : Endpoint N M ρ E R := fun req =>
  let (trace, result) := ep req
  (trace, result.map id)

/-- `EndpointExt::boxed`. -/
def boxed (ep : Endpoint N M ρ E R) : Endpoint N M ρ E R := ep

/-! ## What the macros emit -/

/-- `wrap_layer`: the first listed is wrapped last. -/
def wrapLayer {L : Type} (wrap : Endpoint N M ρ E R → L → Endpoint N M ρ E R)
    (expr : Endpoint N M ρ E R) (paths : List L) : Endpoint N M ρ E R :=
  paths.reverse.foldl wrap expr

/-- `controller_layers`: the statements that rebind `__ep`, in the order they are emitted. -/
def controllerLayers {L : Type} (wrap : Endpoint N M ρ E R → L → Endpoint N M ρ E R)
    (paths : List L) : List (Endpoint N M ρ E R → Endpoint N M ρ E R) :=
  paths.reverse.map fun p ep => boxed (mapToResponse (wrap ep p))

/-- Running the statements, one after the other. -/
def runStatements (statements : List (Endpoint N M ρ E R → Endpoint N M ρ E R))
    (ep : Endpoint N M ρ E R) : Endpoint N M ρ E R :=
  statements.foldl (fun ep statement => statement ep) ep

/-- The layers of a controller. -/
structure Controller (N ρ E R : Type) where
  interceptors : List (Interceptor N ρ E R)
  guards : List (Guard N ρ R)
  filters : List (Filter N ρ E R)

/-- A route: its handler, its layers, its metadata. -/
structure Route (N M ρ E R : Type) where
  wrapper : ρ → Result E R
  guards : List (Guard N ρ R)
  filters : List (Filter N ρ E R)
  interceptors : List (Interceptor N ρ E R)
  shaper : Option (RouteResponseShaper ρ E R)
  metas : List M

/-- The wrapper function of a route. -/
def Route.handler (route : Route N M ρ E R) : Endpoint N M ρ E R := fun req =>
  ([.inward .handler], route.wrapper req)

/-- `guarded_handler`. -/
def guardedHandler (insert : M → ρ → ρ) (route : Route N M ρ E R) : Endpoint N M ρ E R :=
  let expr := match route.shaper with
    | some shaper => shaped route.handler shaper
    | none => route.handler
  let expr := wrapLayer (interceptorEndpoint .route) expr route.interceptors
  let expr := wrapLayer (guardEndpoint .route) expr route.guards
  let expr := wrapLayer (filterEndpoint .route) expr route.filters
  route.metas.foldl (data insert) expr

/-- `__nestrs_controller_layers`. -/
def nestrsControllerLayers (controller : Controller N ρ E R) (ep : Endpoint N M ρ E R) :
    Endpoint N M ρ E R :=
  let ep := boxed (mapToResponse ep)
  let ep := runStatements
    (controllerLayers (interceptorEndpoint .controller) controller.interceptors) ep
  let ep := runStatements (controllerLayers (guardEndpoint .controller) controller.guards) ep
  runStatements (controllerLayers (filterEndpoint .controller) controller.filters) ep

/-- A route as `Controller::mount` mounts it; `arrive` is what poem does to the request on its way
from the controller's layers to the route. -/
def mount (insert : M → ρ → ρ) (arrive : ρ → ρ) (controller : Controller N ρ E R)
    (route : Route N M ρ E R) : Endpoint N M ρ E R :=
  nestrsControllerLayers controller fun req => guardedHandler insert route (arrive req)

/-! ## The order of a list of layers -/

theorem mapToResponse_eq (ep : Endpoint N M ρ E R) : mapToResponse ep = ep := by
  funext req
  unfold mapToResponse
  rcases ep req with ⟨trace, result⟩
  cases result with
  | ok response => rfl
  | error err => rfl

theorem wrapLayer_cons {L : Type} (wrap : Endpoint N M ρ E R → L → Endpoint N M ρ E R)
    (expr : Endpoint N M ρ E R) (p : L) (paths : List L) :
    wrapLayer wrap expr (p :: paths) = wrap (wrapLayer wrap expr paths) p := by
  unfold wrapLayer
  rw [List.reverse_cons, List.foldl_append]
  rfl

/-- The two schemes nest alike. -/
theorem controllerLayers_eq_wrapLayer {L : Type}
    (wrap : Endpoint N M ρ E R → L → Endpoint N M ρ E R) (ep : Endpoint N M ρ E R)
    (paths : List L) :
    runStatements (controllerLayers wrap paths) ep = wrapLayer wrap ep paths := by
  unfold runStatements controllerLayers wrapLayer
  rw [List.foldl_map]
  simp only [boxed, mapToResponse_eq]

/-! ## A way in, by the code of the layers -/

/-- What a request meets: a layer, the routing between the two levels, the handler. -/
inductive Layer (N M ρ E R : Type) where
  | guard (level : Level) (guard : Guard N ρ R)
  | interceptor (level : Level) (interceptor : Interceptor N ρ E R)
  | routing (arrive : ρ → ρ)
  | metadata (value : M)
  | shaper (shaper : RouteResponseShaper ρ E R)
  | handler

namespace Layer

/-- The request as the layer lets it go on, if it does. -/
def goesOn (insert : M → ρ → ρ) : Layer N M ρ E R → ρ → Option ρ
  | guard _ g, req =>
    match g.check req with
    | (req, .ok ()) => some req
    | (_, .error _) => none
  | interceptor _ i, req =>
    match i.intercept req with
    | .next req _ => some req
    | .answer _ => none
  | routing arrive, req => some (arrive req)
  | metadata value, req => some (insert value req)
  | shaper s, req =>
    match s.run (s.capture req) with
    | .awaits _ => some req
    | .answer _ => none
  | handler, req => some req

/-- What it leaves in the trace. -/
def event (passed : Bool) : Layer N M ρ E R → List (Inward N M)
  | guard level g => [.guard level g.name passed]
  | interceptor level i => [.interceptor level i.name passed]
  | routing _ => []
  | metadata value => [.metadata value]
  | shaper _ => [.capture passed]
  | handler => [.handler]

end Layer

/-- The way in of a request: it ends at the first of the layers that does not let it go on. -/
def wayIn (insert : M → ρ → ρ) : List (Layer N M ρ E R) → ρ → List (Inward N M)
  | [], _ => []
  | layer :: layers, req =>
    match layer.goesOn insert req with
    | some req => layer.event true ++ wayIn insert layers req
    | none => layer.event false

/-- A trace without the filters, which act on errors only. -/
def visible (trace : List (Event N M)) : List (Event N M) :=
  trace.filter fun
    | .outward (.filter _ _) => false
    | _ => true

/-- The trace of this way in: each layer that let the request go on has the result back, the last
first. -/
def thereAndBack (down : List (Inward N M)) : List (Event N M) :=
  down.map .inward ++ (down.filterMap Inward.back).reverse.map .outward

/-- The requests to the endpoint meet these layers. -/
def Ordered (insert : M → ρ → ρ) (layers : List (Layer N M ρ E R)) (ep : Endpoint N M ρ E R) :
    Prop :=
  ∀ req, visible (ep req).1 = thereAndBack (wayIn insert layers req)

variable {insert : M → ρ → ρ} {layers : List (Layer N M ρ E R)} {ep : Endpoint N M ρ E R}

/-- A guard that reads the ability of a request, as a layer. -/
def ofGuard (respond : Refusal → R) (name : N) (guard : Http.Guard ρ) : Guard N (Request ρ) R where
  name := name
  check := fun req => ((guard req).1, (guard req).2.mapError respond)

/-- Guards around an endpoint do what `runGuards` does: the endpoint gets the request as the last of
them leaves it, and the first refusal is the response. -/
theorem wrapLayer_guards (level : Level) (respond : Refusal → R)
    (guards : List (N × Http.Guard ρ)) (ep : Endpoint N M (Request ρ) E R) (req : Request ρ) :
    (wrapLayer (guardEndpoint level) ep (guards.map fun g => ofGuard respond g.1 g.2) req).2 =
      match runGuards (guards.map Prod.snd) req with
      | (req, .ok ()) => (ep req).2
      | (_, .error refusal) => .ok (respond refusal) := by
  induction guards generalizing req with
  | nil => rfl
  | cons g guards ih =>
    rw [List.map_cons, List.map_cons, wrapLayer_cons]
    unfold runGuards guardEndpoint
    simp only [ofGuard]
    rcases g.2 req with ⟨req', (refusal | u)⟩
    · rfl
    · exact ih req'

theorem runGuards_append (guards guards' : List (Http.Guard ρ)) (req : Request ρ) :
    runGuards (guards ++ guards') req =
      match runGuards guards req with
      | (req, .ok ()) => runGuards guards' req
      | (req, .error refusal) => (req, .error refusal) := by
  induction guards generalizing req with
  | nil => rfl
  | cons guard guards ih =>
    rw [List.cons_append, runGuards, runGuards]
    rcases guard req with ⟨req', (refusal | u)⟩
    · rfl
    · exact ih req'

/-- **A route with guards only** is served as `runGuards` says: with the guards of the controller
before those of the route, and what is inside only if all of them pass. -/
theorem mount_guards (insert : M → Request ρ → Request ρ) (respond : Refusal → R)
    (outer inner : List (N × Http.Guard ρ)) (wrapper : Request ρ → Result E R) (req : Request ρ) :
    (mount insert id ⟨[], outer.map fun g => ofGuard respond g.1 g.2, []⟩
      ⟨wrapper, inner.map fun g => ofGuard respond g.1 g.2, [], [], none, []⟩ req).2 =
      match runGuards (outer.map Prod.snd ++ inner.map Prod.snd) req with
      | (req, .ok ()) => wrapper req
      | (_, .error refusal) => .ok (respond refusal) := by
  have hlayers : mount insert id ⟨[], outer.map fun g => ofGuard respond g.1 g.2, []⟩
      (⟨wrapper, inner.map fun g => ofGuard respond g.1 g.2, [], [], none, []⟩ :
        Route N M (Request ρ) E R) =
      wrapLayer (guardEndpoint .controller)
        (wrapLayer (guardEndpoint .route) (fun req => ([.inward .handler], wrapper req))
          (inner.map fun g => ofGuard respond g.1 g.2))
        (outer.map fun g => ofGuard respond g.1 g.2) := by
    unfold mount nestrsControllerLayers
    simp only [controllerLayers_eq_wrapLayer, boxed, mapToResponse_eq]
    rfl
  rw [hlayers, wrapLayer_guards, runGuards_append]
  rcases runGuards (outer.map Prod.snd) req with ⟨req', (refusal | u)⟩
  · rfl
  · simp only
    rw [wrapLayer_guards]

end Nestrs.Http.Layers
