import Nestrs.Lib.Onion
import Nestrs.Http.Layers

/-!
# The HTTP transport

Model of `HttpTransport` (`crates/nestrs-http/src/transport.rs`), with the endpoints of
`crates/nestrs-middleware` and `RequestScopeEndpoint` that it folds around the route tree. The
builder methods may be called in any order and any number of times; `configure` builds the tree from
what is discovered and from the mounts, wraps the filters around it, then the guards, the discovered
interceptors, the interceptors of the builder, CORS and the request scope, and leaves the lists
empty.

* poem's `Route` is a parameter, and so is poem's `Cors`, which answers a request itself or sends it
  on. What a controller or a mount does to a route is any function.
* Every wrapper is called with the endpoint so far, so that the last of a list is outermost. A guard
  that was added first is asked last. This is the other way round than the lists of a route or a
  controller (`Layers.lean`).
* `bind`, `tls` and `serve` are left out: what is served is the endpoint.

Results:
* `foldl_filterEndpoint`: of the filters only the one that was added first ever acts;
* **`configure_order`**: what a configured transport does with a request, for all calls of the
  builder.
-/

namespace Nestrs.Http.Transport

open Nestrs.Lib Nestrs.Http.Layers

variable {C Rt N ρ R E T : Type}

/-- Where a request can be met. -/
inductive Place (N : Type) where
  | scope
  | cors
  | interceptor (name : N)
  | discovered (name : N)
  | guard (name : N)
  | filter (name : N)
deriving DecidableEq, Repr

/-- `BoxEndpoint`, with its trace. -/
abbrev Endpoint (N ρ R E T : Type) : Type := Onion.Endpoint (Place N) ρ (Result E R) T

/-- poem's `Route`: an empty one, `nest`, and the endpoint it is. -/
structure Poem (Rt ρ R E T : Type) where
  new : Rt
  nest : Rt → String → (ρ → List T × Result E R) → Rt
  call : Rt → ρ → List T × Result E R

/-! ## The wrappers -/

/-- `FilterEndpoint::call`. -/
def filterEndpoint (inner : Endpoint N ρ R E T) (filter : Filter N ρ E R) : Endpoint N ρ R E T :=
  fun req =>
    match inner req with
    | (trace, .ok response) => (trace, .ok response)
    | (trace, .error err) =>
      (trace ++ [.outward (.filter filter.name)], .ok (filter.filter req err))

/-- `GuardEndpoint::call`. -/
def guardEndpoint (inner : Endpoint N ρ R E T) (guard : Layers.Guard N ρ R) : Endpoint N ρ R E T :=
  fun req =>
    match guard.check req with
    | (req, .ok ()) =>
      let (trace, result) := inner req
      (.inward (.guard guard.name) true :: trace ++ [.outward (.guard guard.name)], result)
    | (_, .error response) => ([.inward (.guard guard.name) false], .ok response)

/-- `InterceptorEndpoint::call`, for an interceptor or for poem's `Cors`. -/
def interceptorEndpoint (place : Place N) (inner : Endpoint N ρ R E T)
    (intercept : ρ → Interception ρ E R) : Endpoint N ρ R E T := fun req =>
  match intercept req with
  | .answer result => ([.inward place false], result)
  | .next req after =>
    let (trace, result) := inner req
    (.inward place true :: trace ++ [.outward place], after result)

/-- `RequestScopeEndpoint::call`; `install` puts a new `RequestScope` into the request. -/
def scopeEndpoint (install : ρ → ρ) (inner : Endpoint N ρ R E T) : Endpoint N ρ R E T := fun req =>
  let (trace, result) := inner (install req)
  (.inward .scope true :: trace ++ [.outward .scope], result)

/-! ## The transport -/

structure HttpTransport (C Rt N ρ R E T : Type) where
  interceptors : List (Interceptor N ρ E R)
  guards : List (Layers.Guard N ρ R)
  filters : List (Filter N ρ E R)
  mounts : List (C → Rt → Rt)
  cors : Option (ρ → Interception ρ E R)
  endpoint : Option (Endpoint N ρ R E T)

/-- A call of a method of the builder. -/
inductive Call (C N ρ R E T : Type) where
  | interceptor (interceptor : Interceptor N ρ E R)
  | guard (guard : Layers.Guard N ρ R)
  | filter (filter : Filter N ρ E R)
  | cors (cors : ρ → Interception ρ E R)
  | mount (path : String) (build : C → ρ → List T × Result E R)

/-- What `DiscoveryService::meta` finds: `HttpControllerMeta`, `HttpEndpointMeta` and
`HttpInterceptorMeta`. -/
structure Discovered (C Rt N ρ R E : Type) where
  controllers : List (C → Rt → Rt)
  endpoints : List (C → Rt → Rt)
  interceptors : List (Interceptor N ρ E R)

namespace HttpTransport

/-- `HttpTransport::new`. -/
def new : HttpTransport C Rt N ρ R E T := ⟨[], [], [], [], none, none⟩

variable (poem : Poem Rt ρ R E T)

/-- The methods of the builder. -/
def call (t : HttpTransport C Rt N ρ R E T) : Call C N ρ R E T → HttpTransport C Rt N ρ R E T
  | .interceptor interceptor => { t with interceptors := t.interceptors ++ [interceptor] }
  | .guard guard => { t with guards := t.guards ++ [guard] }
  | .filter filter => { t with filters := t.filters ++ [filter] }
  | .cors cors => { t with cors := some cors }
  | .mount path build =>
    { t with mounts := t.mounts ++ [fun container route => poem.nest route path (build container)] }

/-- A program of calls. -/
def build (calls : List (Call C N ρ R E T)) : HttpTransport C Rt N ρ R E T :=
  calls.foldl (call poem) new

/-- The endpoint of a route tree. -/
def treeEndpoint (route : Rt) : Endpoint N ρ R E T := fun req =>
  let (trace, result) := poem.call route req
  (trace.map .inner, result)

/-- `Transport::configure`. -/
def configure (install : C → ρ → ρ) (discovered : Discovered C Rt N ρ R E) (container : C)
    (t : HttpTransport C Rt N ρ R E T) : HttpTransport C Rt N ρ R E T :=
  let route := discovered.controllers.foldl (fun route mount => mount container route) poem.new
  let route := discovered.endpoints.foldl (fun route mount => mount container route) route
  let route := t.mounts.foldl (fun route mount => mount container route) route
  let endpoint := treeEndpoint poem route
  let endpoint := t.filters.foldl filterEndpoint endpoint
  let endpoint := t.guards.foldl guardEndpoint endpoint
  let endpoint := discovered.interceptors.foldl
    (fun endpoint i => interceptorEndpoint (.discovered i.name) endpoint i.intercept) endpoint
  let endpoint := t.interceptors.foldl
    (fun endpoint i => interceptorEndpoint (.interceptor i.name) endpoint i.intercept) endpoint
  let endpoint := match t.cors with
    | some cors => interceptorEndpoint .cors endpoint cors
    | none => endpoint
  { interceptors := [], guards := [], filters := [], mounts := [], cors := none
    endpoint := some (scopeEndpoint (install container) endpoint) }

end HttpTransport

/-! ## What has been called -/

namespace Call

def interceptor? : Call C N ρ R E T → Option (Interceptor N ρ E R)
  | interceptor i => some i
  | _ => none

def guard? : Call C N ρ R E T → Option (Layers.Guard N ρ R)
  | guard g => some g
  | _ => none

def filter? : Call C N ρ R E T → Option (Filter N ρ E R)
  | filter f => some f
  | _ => none

def cors? : Call C N ρ R E T → Option (ρ → Interception ρ E R)
  | cors c => some c
  | _ => none

/-- What a `mount` does to a route. -/
def mount? (poem : Poem Rt ρ R E T) : Call C N ρ R E T → Option (C → Rt → Rt)
  | mount path build => some fun container route => poem.nest route path (build container)
  | _ => none

end Call

/-- **The lists do not depend on how the calls of the other methods lie between.** -/
theorem build_eq (poem : Poem Rt ρ R E T) (calls : List (Call C N ρ R E T)) :
    HttpTransport.build poem calls =
      { interceptors := calls.filterMap Call.interceptor?
        guards := calls.filterMap Call.guard?
        filters := calls.filterMap Call.filter?
        mounts := calls.filterMap (Call.mount? poem)
        cors := (calls.filterMap Call.cors?).getLast?
        endpoint := none } := by
  unfold HttpTransport.build
  induction calls using List.reverseRecOn with
  | nil => rfl
  | append_singleton calls c ih =>
    rw [List.foldl_append, ih]
    cases c with
    | _ => simp [HttpTransport.call, List.filterMap_append, Call.interceptor?, Call.guard?,
        Call.filter?, Call.cors?, Call.mount?]

/-! ## The filters -/

/-- An endpoint with its errors caught by a filter, if there is one. -/
def caught (filter : Option (Filter N ρ E R)) (ep : Endpoint N ρ R E T) : Endpoint N ρ R E T :=
  match filter with
  | some filter => filterEndpoint ep filter
  | none => ep

/-- A filter leaves no error for another. -/
theorem filterEndpoint_filterEndpoint (ep : Endpoint N ρ R E T) (first other : Filter N ρ E R) :
    filterEndpoint (filterEndpoint ep first) other = filterEndpoint ep first := by
  funext req
  unfold filterEndpoint
  rcases ep req with ⟨trace, (err | response)⟩
  · rfl
  · rfl

/-- **Of the filters only the one that was added first ever acts.** -/
theorem foldl_filterEndpoint (filters : List (Filter N ρ E R)) (ep : Endpoint N ρ R E T) :
    filters.foldl filterEndpoint ep = caught filters.head? ep := by
  cases filters with
  | nil => rfl
  | cons first filters =>
    rw [List.foldl_cons, List.head?_cons, caught]
    induction filters with
    | nil => rfl
    | cons other filters ih => rw [List.foldl_cons, filterEndpoint_filterEndpoint, ih]

/-! ## The layers -/

def scopeLayer (install : ρ → ρ) : Onion.Layer (Place N) ρ (Result E R) where
  name := .scope
  meet req := .passes (install req) id

def interceptLayer (place : Place N) (intercept : ρ → Interception ρ E R) :
    Onion.Layer (Place N) ρ (Result E R) where
  name := place
  meet req :=
    match intercept req with
    | .answer result => .answers result
    | .next req after => .passes req after

def guardLayer (guard : Layers.Guard N ρ R) : Onion.Layer (Place N) ρ (Result E R) where
  name := .guard guard.name
  meet req :=
    match guard.check req with
    | (req, .ok ()) => .passes req id
    | (_, .error response) => .answers (.ok response)

/-- The layers of a transport around its guards, in the order in which a request meets them: the
request scope, CORS (the last that was set), the interceptors of the builder and the discovered
ones; of each list the last first. -/
def outerLayers (install : ρ → ρ) (discovered : Discovered C Rt N ρ R E)
    (calls : List (Call C N ρ R E T)) : List (Onion.Layer (Place N) ρ (Result E R)) :=
  scopeLayer install ::
    (((calls.filterMap Call.cors?).getLast?.map (interceptLayer .cors)).toList ++
    ((calls.filterMap Call.interceptor?).map fun i =>
      interceptLayer (.interceptor i.name) i.intercept).reverse ++
    (discovered.interceptors.map fun i =>
      interceptLayer (.discovered i.name) i.intercept).reverse)

/-- All of them. -/
def layers (install : ρ → ρ) (discovered : Discovered C Rt N ρ R E)
    (calls : List (Call C N ρ R E T)) : List (Onion.Layer (Place N) ρ (Result E R)) :=
  outerLayers install discovered calls ++ ((calls.filterMap Call.guard?).map guardLayer).reverse

/-- The route tree: what the controllers make of an empty one, then the discovered endpoints, then
the mounts. -/
def tree (poem : Poem Rt ρ R E T) (discovered : Discovered C Rt N ρ R E) (container : C)
    (calls : List (Call C N ρ R E T)) : Rt :=
  (discovered.controllers ++ discovered.endpoints ++ calls.filterMap (Call.mount? poem)).foldl
    (fun route mount => mount container route) poem.new

theorem scopeEndpoint_eq (install : ρ → ρ) (ep : Endpoint N ρ R E T) :
    scopeEndpoint install ep = Onion.wrap ep (scopeLayer install) := rfl

theorem interceptorEndpoint_eq (place : Place N) (ep : Endpoint N ρ R E T)
    (intercept : ρ → Interception ρ E R) :
    interceptorEndpoint place ep intercept = Onion.wrap ep (interceptLayer place intercept) := by
  funext req
  unfold interceptorEndpoint Onion.wrap interceptLayer
  simp only
  cases intercept req with
  | answer result => rfl
  | next req after => rfl

theorem guardEndpoint_eq (ep : Endpoint N ρ R E T) (guard : Layers.Guard N ρ R) :
    guardEndpoint ep guard = Onion.wrap ep (guardLayer guard) := by
  funext req
  unfold guardEndpoint Onion.wrap guardLayer
  simp only
  rcases guard.check req with ⟨req', (response | u)⟩
  · rfl
  · rfl

/-- The endpoint of a configured transport is a way in, the route tree, and a way out. -/
theorem configure_eq (poem : Poem Rt ρ R E T) (install : C → ρ → ρ)
    (discovered : Discovered C Rt N ρ R E) (container : C) (calls : List (Call C N ρ R E T)) :
    (HttpTransport.configure poem install discovered container
      (HttpTransport.build poem calls)).endpoint =
        some (Onion.travel (layers (install container) discovered calls)
          (caught (calls.filterMap Call.filter?).head?
            (HttpTransport.treeEndpoint poem (tree poem discovered container calls)))) := by
  rw [build_eq]
  unfold HttpTransport.configure layers outerLayers tree
  simp only
  rw [foldl_filterEndpoint, Onion.foldl_wrap guardEndpoint_eq,
    Onion.foldl_wrap fun ep (i : Interceptor N ρ E R) =>
      interceptorEndpoint_eq (.discovered i.name) ep i.intercept,
    Onion.foldl_wrap fun ep (i : Interceptor N ρ E R) =>
      interceptorEndpoint_eq (.interceptor i.name) ep i.intercept,
    Onion.travel_append, Onion.travel_append, List.foldl_append, List.foldl_append,
    scopeEndpoint_eq, List.cons_append, Onion.travel_cons]
  cases (calls.filterMap Call.cors?).getLast? with
  | none => rfl
  | some cors =>
    refine congrArg (fun ep => some (Onion.wrap ep (scopeLayer (install container)))) ?_
    exact (interceptorEndpoint_eq .cors _ cors).trans (Onion.travel_cons _ _ _).symm

theorem guard_not_mem_outerLayers (install : ρ → ρ) (discovered : Discovered C Rt N ρ R E)
    (calls : List (Call C N ρ R E T)) (name : N) :
    .guard name ∉ (outerLayers install discovered calls).map Onion.Layer.name := by
  unfold outerLayers
  cases (calls.filterMap Call.cors?).getLast? with
  | none => simp [scopeLayer, interceptLayer]
  | some cors => simp [scopeLayer, interceptLayer]

/-- A guard that does not let a request go on answers with a response. -/
theorem guard_answers {install : ρ → ρ} {discovered : Discovered C Rt N ρ R E}
    {calls : List (Call C N ρ R E T)} {req : ρ} {name : N} {result : Result E R}
    (h : (Onion.descend (layers install discovered calls) req).2 = .answered (.guard name) result) :
    ∃ response, result = .ok response := by
  obtain ⟨layer, hlayer, req', hname, hmeet⟩ := Onion.mem_of_answered h
  rcases List.mem_append.mp hlayer with houter | hguard
  · exact absurd (hname ▸ List.mem_map_of_mem houter)
      (guard_not_mem_outerLayers install discovered calls name)
  · obtain ⟨guard, -, rfl⟩ := List.mem_map.mp (List.mem_reverse.mp hguard)
    unfold guardLayer at hmeet
    simp only at hmeet
    split at hmeet
    · cases hmeet
    · cases hmeet
      exact ⟨_, rfl⟩

/-- **What a configured transport does with a request.** Whatever methods of the builder have been
called, in whatever order, and whatever has been discovered, a request meets the request scope,
CORS, the interceptors of the builder, the discovered interceptors and the guards, of each list the
last first, until one answers; if none does it comes to the route tree, of the controllers, the
endpoints and the mounts, whose errors are caught by the filter that was added first. What comes
back goes through the layers passed, the last of them first. If it is a guard that answers, it
answers with a response, and has all interceptors around it. -/
theorem configure_order (poem : Poem Rt ρ R E T) (install : C → ρ → ρ)
    (discovered : Discovered C Rt N ρ R E) (container : C) (calls : List (Call C N ρ R E T)) :
    (HttpTransport.configure poem install discovered container
      (HttpTransport.build poem calls)).endpoint =
        some (Onion.travel (layers (install container) discovered calls)
          (caught (calls.filterMap Call.filter?).head?
            (HttpTransport.treeEndpoint poem (tree poem discovered container calls)))) ∧
      ∀ req name result,
        (Onion.descend (layers (install container) discovered calls) req).2 =
            .answered (.guard name) result →
          (∃ response, result = .ok response) ∧
          (outerLayers (install container) discovered calls).map Onion.Layer.name <+:
            (Onion.descend (layers (install container) discovered calls) req).1.map Prod.fst :=
  ⟨configure_eq poem install discovered container calls, fun _ _ _ h => ⟨guard_answers h,
    Onion.passed_outer h (guard_not_mem_outerLayers (install container) discovered calls _)⟩⟩

-- the interceptor is around both guards, and the guard that was added last is asked first
example (install : Unit → Unit → Unit) (poem : Poem Unit Unit String String Unit) :
    ((HttpTransport.configure poem install ⟨[], [], []⟩ () (HttpTransport.build poem
      [.guard ⟨"auth", fun req => (req, .error "401")⟩,
        .interceptor ⟨"log", fun req => .next req id⟩,
        .guard ⟨"throttle", fun req => (req, .ok ())⟩])).endpoint.map fun ep => ep ()) =
      some ([.inward .scope true, .inward (.interceptor "log") true,
        .inward (.guard "throttle") true, .inward (.guard "auth") false,
        .outward (.guard "throttle"), .outward (.interceptor "log"), .outward .scope],
        .ok "401") := rfl

end Nestrs.Http.Transport
