import Nestrs.Lib.Segments

/-!
# The paths of routes

Model of the path composition of `crates/nestrs-http`: `join_path` and `version_path`
(`src/transport.rs`), the metadata a controller is discovered by (`src/controller.rs`,
`src/endpoint.rs`), and the lines `HttpTransport::configure` logs of it. `#[routes]` mounts a
controller at the same `version_path`, so the path served, the path logged and the path documented
are one composition: `HttpControllerMeta.full`.

A controller's `mount` closure is left out. `SchemaFn` is a function over the generator `G` of
`schemars`, which makes schemas `S`.

Results:
* **`joinPath_assoc`**: it does not matter whether the version, the controller's path or the
  route's path is joined first;
* `components_full`: the full path has the segments of the three, in this order, and no others;
* `routeLine_mem_routeLog`: every route is logged with its full path.
-/

namespace Nestrs.Http

open Nestrs.Lib

/-! ## Joining paths -/

/-- `str::trim_end_matches`, of one character. -/
def trimEndMatches (s : String) (c : Char) : String :=
  String.ofList (Segments.trimEnd c s.toList)

/-- `str::trim_start_matches`. -/
def trimStartMatches (s : String) (c : Char) : String :=
  String.ofList (Segments.trimStart c s.toList)

/-- `join_path`. -/
def joinPath (pre rest : String) : String :=
  let p := trimEndMatches pre '/'
  let r := trimStartMatches rest '/'
  match p.isEmpty, r.isEmpty with
  | true, true => "/"
  | false, true => p
  | true, false => "/" ++ r
  | false, false => p ++ "/" ++ r

/-- `version_path`. -/
def versionPath (version : Option String) (path : String) : String :=
  match version with
  | some v => joinPath ("/v" ++ v) path
  | none => path

theorem isEmpty_ofList (l : List Char) : (String.ofList l).isEmpty = l.isEmpty := by
  rw [Bool.eq_iff_iff, String.isEmpty_iff, List.isEmpty_iff, String.ofList_eq_empty_iff]

/-- The four cases of `join_path` are one. -/
theorem toList_joinPath (pre rest : String) :
    (joinPath pre rest).toList = Segments.join '/' pre.toList rest.toList := by
  unfold joinPath trimEndMatches trimStartMatches Segments.join
  simp only [isEmpty_ofList]
  cases hp : Segments.trimEnd '/' pre.toList <;> cases hr : Segments.trimStart '/' rest.toList <;>
    simp

/-- **`join_path` is associative.** -/
theorem joinPath_assoc (a b c : String) :
    joinPath (joinPath a b) c = joinPath a (joinPath b c) := by
  rw [← String.toList_inj]
  simp only [toList_joinPath, Segments.join_assoc]

/-! ## The metadata of controllers -/

/-- `HttpVerb`. -/
inductive HttpVerb where
  | get
  | post
  | put
  | delete
  | patch
deriving DecidableEq, Repr

/-- `HttpVerb::as_str`. -/
def HttpVerb.asStr : HttpVerb → String
  | get => "GET"
  | post => "POST"
  | put => "PUT"
  | delete => "DELETE"
  | patch => "PATCH"

/-- `SchemaFn`. -/
abbrev SchemaFn (G S : Type) : Type := G → S × G

variable {G S : Type}

/-- `HttpRouteMeta`. -/
structure HttpRouteMeta (G S : Type) where
  verb : HttpVerb
  path : String
  handler : String
  summary : Option String
  description : Option String
  tags : List String
  requestBody : Option (SchemaFn G S)
  response : Option (SchemaFn G S)

/-- `HttpControllerMeta`. -/
structure HttpControllerMeta (G S : Type) where
  path : String
  version : Option String
  routes : List (HttpRouteMeta G S)

/-- `HttpEndpointMeta`. -/
structure HttpEndpointMeta where
  path : String
  label : String

namespace HttpControllerMeta

/-- `HttpControllerMeta::effective_prefix`. -/
def effectivePrefix (controller : HttpControllerMeta G S) : String :=
  versionPath controller.version controller.path

/-- `join_path(&prefix, route.path)`, in the boot log and in the document. -/
def full (controller : HttpControllerMeta G S) (route : HttpRouteMeta G S) : String :=
  joinPath controller.effectivePrefix route.path

end HttpControllerMeta

/-! ## The boot log -/

/-- `{:<6} {}  ({})`. -/
def routeLine (verb path label : String) : String :=
  verb ++ "".pushn ' ' (6 - verb.length) ++ " " ++ path ++ "  (" ++ label ++ ")"

/-- What `HttpTransport::configure` logs under `nestrs::routes`. -/
def routeLog (controllers : List (HttpControllerMeta G S)) (endpoints : List HttpEndpointMeta) :
    List String :=
  (controllers.flatMap fun controller => controller.routes.map fun r =>
      routeLine r.verb.asStr (controller.full r) r.handler) ++
    endpoints.map fun endpoint => routeLine "*" endpoint.path endpoint.label

theorem routeLine_mem_routeLog {controllers : List (HttpControllerMeta G S)}
    {controller : HttpControllerMeta G S} (hcontroller : controller ∈ controllers)
    {route : HttpRouteMeta G S} (hroute : route ∈ controller.routes)
    (endpoints : List HttpEndpointMeta) :
    routeLine route.verb.asStr (controller.full route) route.handler ∈
      routeLog controllers endpoints :=
  List.mem_append_left _ (List.mem_flatMap.mpr
    ⟨controller, hcontroller, List.mem_map.mpr ⟨route, hroute, rfl⟩⟩)

/-! ## The segments of a full path -/

/-- The segments of a path that are not empty. -/
def components (path : String) : List String :=
  (Segments.components '/' path.toList).map String.ofList

theorem components_joinPath (pre rest : String) :
    components (joinPath pre rest) = components pre ++ components rest := by
  unfold components
  rw [toList_joinPath, Segments.components_join, List.map_append]

/-- The full path has the segments of the version, the controller and the route. -/
theorem components_full (controller : HttpControllerMeta G S) (route : HttpRouteMeta G S) :
    components (controller.full route) =
      (match controller.version with | some v => components ("/v" ++ v) | none => []) ++
        components controller.path ++ components route.path := by
  unfold HttpControllerMeta.full HttpControllerMeta.effectivePrefix versionPath
  cases controller.version with
  | none => rw [components_joinPath, List.nil_append]
  | some v => rw [components_joinPath, components_joinPath]

end Nestrs.Http
