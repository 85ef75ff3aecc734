import Nestrs.Http.Layers

/-!
# What exception filters see

`guarded_handler` documents that a filter maps an error from the handler or a guard to a response:
filters are wrapped outside the guards. `Layers.lean` has the wrappers; here is what becomes of a
failure inside them.

A `GuardEndpoint` answers for the guard that rejects, with `Ok(response)`, and a `FilterEndpoint`
acts on `Err` only. So a filter sees what the handler returns, through any guards around it, and
never sees a rejection.

`Fate` says what a request comes to without any filter: an abstract run of the guards, the
interceptors and the handler. Interceptors pass the inner result through, as does the shaper
(`KeepsOutcome`, which holds of `Authorize`'s).

Results:
* `observe_mount`: a mounted route does what the fate says, with the filters around it;
* **`filters_see_failures_iff`**: every failure inside filters is seen by the innermost of the
  nearest level, and nothing else is, iff no guard with a filter around it rejects the request.
-/

namespace Nestrs.Http.Layers

variable {ρ R E N M : Type}

/-! ## Layers that pass results through -/

/-- The interceptor calls `next`, and returns the inner result. -/
def Interceptor.PassesThrough (interceptor : Interceptor N ρ E R) : Prop :=
  ∀ req, ∃ req', interceptor.intercept req = .next req' id

/-- The shaper awaits the inner future, passes an error through and answers a success. -/
def RouteResponseShaper.KeepsOutcome (shaper : RouteResponseShaper ρ E R) : Prop :=
  ∀ req, ∃ after, shaper.run (shaper.capture req) = .awaits after ∧
    (∀ err, after (.error err) = .error err) ∧
    ∀ response, ∃ response', after (.ok response) = .ok response'

/-- The shaper of `Authorize`, over its `mask_response`: the ability is captured, the inner future
runs under it, and a response is masked. -/
def authorizeShaper {A : Type} (ability : ρ → Option A) (maskResponse : A → R → R) :
    RouteResponseShaper ρ E R where
  Captured := Option A
  capture := ability
  run
    | some ability => .awaits fun result => result.map (maskResponse ability)
    | none => .awaits id

theorem keepsOutcome_authorizeShaper {A : Type} (ability : ρ → Option A)
    (maskResponse : A → R → R) :
    (authorizeShaper ability maskResponse : RouteResponseShaper ρ E R).KeepsOutcome := by
  intro req
  cases hability : ability req with
  | none =>
    refine ⟨id, ?_, fun _ => rfl, fun response => ⟨response, rfl⟩⟩
    simp only [authorizeShaper, hability]
  | some a =>
    refine ⟨fun result => result.map (maskResponse a), ?_, fun _ => rfl,
      fun response => ⟨maskResponse a response, rfl⟩⟩
    simp only [authorizeShaper, hability]

/-! ## The fate of a request -/

/-- What a request comes to. -/
inductive Fate (E R : Type) where
  | rejected (level : Level) (response : R)
  | failed (err : E)
  | succeeded (response : R)

/-- The guards of a level, in order. -/
def checkGuards : List (Guard N ρ R) → ρ → ρ × Except R Unit
  | [], req => (req, .ok ())
  | guard :: guards, req =>
    match guard.check req with
    | (req, .ok ()) => checkGuards guards req
    | (req, .error response) => (req, .error response)

/-- The request as an interceptor hands it on. -/
def Interceptor.forward (interceptor : Interceptor N ρ E R) (req : ρ) : ρ :=
  match interceptor.intercept req with
  | .next req _ => req
  | .answer _ => req

/-- The request as the interceptors of a level hand it on. -/
def forwardAll (interceptors : List (Interceptor N ρ E R)) (req : ρ) : ρ :=
  interceptors.foldl (fun req interceptor => interceptor.forward req) req

/-- The request with the metadata of a route. -/
def insertAll (insert : M → ρ → ρ) (metas : List M) (req : ρ) : ρ := metas.foldr insert req

/-- The request at the filters of a level, if it gets there. -/
def reqAt (insert : M → ρ → ρ) (arrive : ρ → ρ) (controller : Controller N ρ E R)
    (route : Route N M ρ E R) (req : ρ) : Level → ρ
  | .controller => req
  | .route => insertAll insert route.metas
      (arrive (forwardAll controller.interceptors (checkGuards controller.guards req).1))

/-- What the request comes to on a route, of the route's own layers. -/
def routeFate (route : Route N M ρ E R) (req : ρ) : Fate E R :=
  match checkGuards route.guards req with
  | (_, .error response) => .rejected .route response
  | (req, .ok ()) =>
    match route.wrapper (forwardAll route.interceptors req) with
    | .ok response => .succeeded response
    | .error err => .failed err

/-- What the request comes to, filters apart. -/
def fate (insert : M → ρ → ρ) (arrive : ρ → ρ) (controller : Controller N ρ E R)
    (route : Route N M ρ E R) (req : ρ) : Fate E R :=
  match checkGuards controller.guards req with
  | (_, .error response) => .rejected .controller response
  | (_, .ok ()) => routeFate route (reqAt insert arrive controller route req .route)

/-- The innermost filter around a level: the last listed there, or else at the controller. -/
def enclosing (controller : Controller N ρ E R) (route : Route N M ρ E R) :
    Level → Option (Level × Filter N ρ E R)
  | .controller => controller.filters.getLast?.map fun filter => (.controller, filter)
  | .route => match route.filters.getLast? with
    | some filter => some (.route, filter)
    | none => controller.filters.getLast?.map fun filter => (.controller, filter)

/-- The filters that were invoked. -/
def invoked (trace : List (Event N M)) : List (Level × N) :=
  trace.filterMap fun
    | .outward (.filter level name) => some (level, name)
    | _ => none

/-- **Filters see every failure inside them**: on an error of the handler and on a rejection, the
innermost filter of the nearest level is invoked, once and no other, and what it makes of the
failure is the response; on a success none is invoked. -/
def FiltersSee (insert : M → ρ → ρ) (arrive : ρ → ρ) (controller : Controller N ρ E R)
    (route : Route N M ρ E R) (req : ρ) : Prop :=
  let run := mount insert arrive controller route req
  match fate insert arrive controller route req with
  | .succeeded _ => invoked run.1 = []
  | .failed err => ∀ level filter, enclosing controller route .route = some (level, filter) →
      invoked run.1 = [(level, filter.name)] ∧
        run.2 = .ok (filter.filter (reqAt insert arrive controller route req level) err)
  | .rejected at_ _ => ∀ level filter, enclosing controller route at_ = some (level, filter) →
      invoked run.1 = [(level, filter.name)] ∧ ∃ err,
        run.2 = .ok (filter.filter (reqAt insert arrive controller route req level) err)

/-! ## What the layers do -/

/-- What is observed of an endpoint: the filters it invokes, and its result. -/
def observe (ep : Endpoint N M ρ E R) (req : ρ) : List (Level × N) × Result E R :=
  (invoked (ep req).1, (ep req).2)

/-- What the filters of a level make of what they see. -/
def caught (level : Level) (filters : List (Filter N ρ E R)) (req : ρ) :
    List (Level × N) × Result E R → List (Level × N) × Result E R
  | (names, .ok response) => (names, .ok response)
  | (names, .error err) => match filters.getLast? with
    | some filter => (names ++ [(level, filter.name)], .ok (filter.filter req err))
    | none => (names, .error err)

theorem invoked_append (before after : List (Event N M)) :
    invoked (before ++ after) = invoked before ++ invoked after :=
  List.filterMap_append

theorem observe_filter (level : Level) (ep : Endpoint N M ρ E R) (filter : Filter N ρ E R)
    (req : ρ) : observe (filterEndpoint level ep filter) req =
      caught level [filter] req (observe ep req) := by
  unfold observe filterEndpoint
  rcases ep req with ⟨trace, (err | response)⟩
  · simp only [invoked_append]
    rfl
  · rfl

/-- Only the innermost of the filters of a level catches. -/
theorem observe_filters (level : Level) (ep : Endpoint N M ρ E R)
    (filters : List (Filter N ρ E R)) (req : ρ) :
    observe (wrapLayer (filterEndpoint level) ep filters) req =
      caught level filters req (observe ep req) := by
  induction filters with
  | nil =>
    rcases hep : observe ep req with ⟨names, (err | response)⟩
    · exact hep
    · exact hep
  | cons filter filters ih =>
    rw [wrapLayer_cons, observe_filter, ih]
    rcases observe ep req with ⟨names, (err | response)⟩
    · cases filters with
      | nil => rfl
      | cons inner filters =>
        unfold caught
        rw [List.getLast?_cons_cons]
        simp only
        rw [List.getLast?_eq_getLast_of_ne_nil (List.cons_ne_nil inner filters)]
    · rfl

/-- Guards answer for the first that rejects; the others let what is inside through. -/
theorem observe_guards (level : Level) (ep : Endpoint N M ρ E R) (guards : List (Guard N ρ R))
    (req : ρ) : observe (wrapLayer (guardEndpoint level) ep guards) req =
      match checkGuards guards req with
      | (req, .ok ()) => observe ep req
      | (_, .error response) => ([], .ok response) := by
  induction guards generalizing req with
  | nil => rfl
  | cons guard guards ih =>
    rw [wrapLayer_cons]
    unfold checkGuards
    rcases hcheck : guard.check req with ⟨req', (response | u)⟩
    · unfold observe guardEndpoint
      rw [hcheck]
      rfl
    · simp only
      rw [← ih req']
      unfold observe guardEndpoint
      rw [hcheck]
      rfl

/-- Interceptors that pass results through hand on the request, and that is all. -/
theorem observe_interceptors (level : Level) (ep : Endpoint N M ρ E R)
    (interceptors : List (Interceptor N ρ E R)) (h : ∀ i ∈ interceptors, i.PassesThrough)
    (req : ρ) : observe (wrapLayer (interceptorEndpoint level) ep interceptors) req =
      observe ep (forwardAll interceptors req) := by
  induction interceptors generalizing req with
  | nil => rfl
  | cons interceptor interceptors ih =>
    obtain ⟨hfirst, hrest⟩ := List.forall_mem_cons.mp h
    obtain ⟨req', hnext⟩ := hfirst req
    have hforward : interceptor.forward req = req' := by
      unfold Interceptor.forward
      rw [hnext]
    rw [wrapLayer_cons, forwardAll, List.foldl_cons, hforward, ← forwardAll, ← ih hrest req']
    unfold observe interceptorEndpoint
    rw [hnext]
    simp only [List.cons_append]
    rw [← List.cons_append, invoked_append]
    exact Prod.ext (List.append_nil _) rfl

theorem observe_metas (insert : M → ρ → ρ) (ep : Endpoint N M ρ E R) (metas : List M) (req : ρ) :
    observe (metas.foldl (data insert) ep) req = observe ep (insertAll insert metas req) := by
  induction metas generalizing ep with
  | nil => rfl
  | cons value metas ih =>
    rw [List.foldl_cons, ih]
    rfl

/-! ## What becomes of a failure -/

/-- The handler of a route, in its shaper. -/
def shapedHandler (route : Route N M ρ E R) : Endpoint N M ρ E R :=
  match route.shaper with
  | some shaper => shaped route.handler shaper
  | none => route.handler

/-- The layers of a route inside its filters. -/
def unfiltered (route : Route N M ρ E R) : Endpoint N M ρ E R :=
  wrapLayer (guardEndpoint .route)
    (wrapLayer (interceptorEndpoint .route) (shapedHandler route) route.interceptors) route.guards

theorem observe_guardedHandler (insert : M → ρ → ρ) (route : Route N M ρ E R) (req : ρ) :
    observe (guardedHandler insert route) req =
      caught .route route.filters (insertAll insert route.metas req)
        (observe (unfiltered route) (insertAll insert route.metas req)) := by
  rw [← observe_filters, ← observe_metas]
  rfl

section Outcome

variable {controller : Controller N ρ E R} {route : Route N M ρ E R}

/-- The shaper keeps errors and successes apart. -/
theorem observe_shapedHandler (hshaper : ∀ s, route.shaper = some s → s.KeepsOutcome) (req : ρ) :
    (∃ err, route.wrapper req = .error err ∧
      observe (shapedHandler route) req = ([], .error err)) ∨
    ∃ response response', route.wrapper req = .ok response ∧
      observe (shapedHandler route) req = ([], .ok response') := by
  unfold shapedHandler
  cases hs : route.shaper with
  | none =>
    cases hw : route.wrapper req with
    | error err =>
      refine Or.inl ⟨err, rfl, ?_⟩
      simp [observe, Route.handler, invoked, hw]
    | ok response =>
      refine Or.inr ⟨response, response, rfl, ?_⟩
      simp [observe, Route.handler, invoked, hw]
  | some shaper =>
    obtain ⟨after, hrun, herror, hok⟩ := hshaper shaper hs req
    cases hw : route.wrapper req with
    | error err =>
      refine Or.inl ⟨err, rfl, ?_⟩
      simp [observe, shaped, Route.handler, invoked, hrun, hw, herror]
    | ok response =>
      obtain ⟨response', hafter⟩ := hok response
      refine Or.inr ⟨response, response', rfl, ?_⟩
      simp [observe, shaped, Route.handler, invoked, hrun, hw, hafter]

/-- What the filters of a route are around: a rejection looks like a success. -/
theorem observe_unfiltered (hinterceptors : ∀ i ∈ route.interceptors, i.PassesThrough)
    (hshaper : ∀ s, route.shaper = some s → s.KeepsOutcome) (req : ρ) :
    (∃ response, routeFate route req = .rejected .route response ∧
      observe (unfiltered route) req = ([], .ok response)) ∨
    (∃ err, routeFate route req = .failed err ∧
      observe (unfiltered route) req = ([], .error err)) ∨
    ∃ response response', routeFate route req = .succeeded response ∧
      observe (unfiltered route) req = ([], .ok response') := by
  unfold unfiltered routeFate
  rw [observe_guards]
  rcases checkGuards route.guards req with ⟨req', (response | u)⟩
  · exact Or.inl ⟨response, rfl, rfl⟩
  · refine Or.inr ?_
    simp only
    rw [observe_interceptors .route _ _ hinterceptors]
    rcases observe_shapedHandler hshaper (forwardAll route.interceptors req') with
      ⟨err, hw, hobserve⟩ | ⟨response, response', hw, hobserve⟩
    · refine Or.inl ⟨err, ?_, hobserve⟩
      rw [hw]
    · refine Or.inr ⟨response, response', ?_, hobserve⟩
      rw [hw]

/-- A mounted route, level by level. -/
theorem observe_mount (route : Route N M ρ E R) (insert : M → ρ → ρ) (arrive : ρ → ρ)
    (hinterceptors : ∀ i ∈ controller.interceptors, i.PassesThrough) (req : ρ) :
    observe (mount insert arrive controller route) req =
      caught .controller controller.filters req
        (match checkGuards controller.guards req with
          | (_, .ok ()) =>
            let q := reqAt insert arrive controller route req .route
            caught .route route.filters q (observe (unfiltered route) q)
          | (_, .error response) => ([], .ok response)) := by
  unfold mount nestrsControllerLayers
  simp only [controllerLayers_eq_wrapLayer, boxed, mapToResponse_eq]
  rw [observe_filters, observe_guards]
  unfold reqAt
  rcases checkGuards controller.guards req with ⟨req', (response | u)⟩
  · rfl
  · simp only
    rw [observe_interceptors .controller _ _ hinterceptors]
    have harrive : observe (fun req => guardedHandler insert route (arrive req))
        (forwardAll controller.interceptors req') = observe (guardedHandler insert route)
          (arrive (forwardAll controller.interceptors req')) := rfl
    rw [harrive, observe_guardedHandler]

/-- A failure of the handler is caught by the innermost filter around it. -/
theorem caught_error (insert : M → ρ → ρ) (arrive : ρ → ρ) (req : ρ) (err : E) {level : Level}
    {filter : Filter N ρ E R} (h : enclosing controller route .route = some (level, filter)) :
    caught .controller controller.filters req
        (caught .route route.filters (reqAt insert arrive controller route req .route)
          ([], .error err)) =
      ([(level, filter.name)],
        .ok (filter.filter (reqAt insert arrive controller route req level) err)) := by
  unfold enclosing at h
  simp only at h
  unfold caught
  cases hroute : route.filters.getLast? with
  | some inner =>
    rw [hroute] at h
    obtain ⟨rfl, rfl⟩ := Prod.mk.inj (Option.some.inj h)
    rfl
  | none =>
    rw [hroute] at h
    obtain ⟨outer, houter, hpair⟩ := Option.map_eq_some_iff.mp h
    obtain ⟨rfl, rfl⟩ := Prod.mk.inj hpair
    rw [houter]
    rfl

/-- No filter is invoked on a rejection, so there must be none to invoke. -/
theorem unseen_iff {level : Level} {seen : Level → Filter N ρ E R → Prop} :
    (∀ l filter, enclosing controller route level = some (l, filter) →
      ([] : List (Level × N)) = [(l, filter.name)] ∧ seen l filter) ↔
    enclosing controller route level = none := by
  constructor
  · intro hseen
    cases henclosing : enclosing controller route level with
    | none => rfl
    | some pair => exact nomatch (hseen pair.1 pair.2 henclosing).1
  · intro hnone l filter h
    rw [hnone] at h
    cases h

end Outcome

/-- **Filters and failures.** For any layers of a controller and of one of its routes, whose
interceptors pass the inner result through, and every request: every failure inside filters is seen
by the innermost filter of the nearest level, once and by no other, its response is what the outer
layers receive, and no filter is invoked on a success, iff no guard that has a filter around it, at
its own level or outside, rejects the request. -/
theorem filters_see_failures_iff (insert : M → ρ → ρ) (arrive : ρ → ρ)
    (controller : Controller N ρ E R) (route : Route N M ρ E R)
    (hinterceptors : ∀ i ∈ controller.interceptors ++ route.interceptors, i.PassesThrough)
    (hshaper : ∀ s, route.shaper = some s → s.KeepsOutcome) (req : ρ) :
    FiltersSee insert arrive controller route req ↔
      ∀ level response, fate insert arrive controller route req = .rejected level response →
        enclosing controller route level = none := by
  obtain ⟨houter, hinner⟩ := List.forall_mem_append.mp hinterceptors
  have hmount := observe_mount route insert arrive houter req
  have hinvoked : invoked (mount insert arrive controller route req).1 =
      (observe (mount insert arrive controller route) req).1 := rfl
  have hresult : (mount insert arrive controller route req).2 =
      (observe (mount insert arrive controller route) req).2 := rfl
  unfold FiltersSee
  simp only
  rw [hinvoked, hresult, hmount]
  unfold fate
  rcases checkGuards controller.guards req with ⟨req', (response | u)⟩
  · -- a guard of the controller rejects
    refine unseen_iff.trans ⟨fun hnone level _ hfate => ?_, fun h => h .controller response rfl⟩
    cases hfate
    exact hnone
  · simp only
    rcases observe_unfiltered hinner hshaper (reqAt insert arrive controller route req .route) with
      ⟨response, hfate, hobserve⟩ | ⟨err, hfate, hobserve⟩ | ⟨response, _, hfate, hobserve⟩
    · -- a guard of the route does
      rw [hfate, hobserve]
      refine unseen_iff.trans ⟨fun hnone level _ hrejected => ?_, fun h => h .route response rfl⟩
      cases hrejected
      exact hnone
    · -- the handler fails
      rw [hfate, hobserve]
      refine ⟨fun _ level _ hrejected => (nomatch hrejected), fun _ level filter henclosing => ?_⟩
      rw [caught_error insert arrive req err henclosing]
      exact ⟨rfl, rfl⟩
    · rw [hfate, hobserve]
      exact ⟨fun _ level _ hrejected => (nomatch hrejected), fun _ => rfl⟩

/-- A controller without layers. -/
def bareController : Controller String Bool String String := ⟨[], [], []⟩

/-- A route for admins whose handler fails, with a filter for its errors, an interceptor and the
shaper of `Authorize`. A request is whether it comes from an admin. -/
def adminRoute : Route String Unit Bool String String where
  wrapper := fun _ => .error "no such user"
  guards := [⟨"AdminGuard", fun req => (req, if req then .ok () else .error "forbidden")⟩]
  filters := [⟨"ErrorMapper", fun _ err => "error: " ++ err⟩]
  interceptors := [⟨"Timing", fun req => .next req id⟩]
  shaper := some (authorizeShaper (fun req => if req then some () else none) fun _ response =>
    response)
  metas := []

/-- The error of the handler is seen. -/
theorem admin_failure_seen :
    FiltersSee (fun _ req => req) id bareController adminRoute true ∧
      (mount (fun _ req => req) id bareController adminRoute true).2 =
        .ok "error: no such user" := by
  refine ⟨(filters_see_failures_iff (fun _ req => req) id bareController adminRoute ?_ ?_ true).mpr
    ?_, rfl⟩
  · intro i hi req
    rw [List.mem_singleton.mp hi]
    exact ⟨req, rfl⟩
  · rintro s hs
    cases hs
    exact keepsOutcome_authorizeShaper _ _
  · exact fun level response hfate => nomatch hfate

/-- The rejection of the guard is not. -/
theorem admin_rejection_unseen :
    enclosing bareController adminRoute .route ≠ none ∧
      invoked (mount (fun _ req => req) id bareController adminRoute false).1 = [] ∧
      (mount (fun _ req => req) id bareController adminRoute false).2 = .ok "forbidden" ∧
      ¬ FiltersSee (fun _ req => req) id bareController adminRoute false := by
  refine ⟨nofun, rfl, rfl, fun hsees => ?_⟩
  obtain ⟨hinvoked, -⟩ := hsees .route _ rfl
  exact absurd hinvoked (by decide)

end Nestrs.Http.Layers
