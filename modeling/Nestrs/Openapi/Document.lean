import Nestrs.Authz.Ability
import Nestrs.Http.Paths
import Nestrs.Lib.Entries
import Mathlib.Data.String.Basic

/-!
# The OpenAPI document

Model of `build_document` (`crates/nestrs-openapi/src/document.rs`): one operation for each route of
each controller, in the order discovery returns them, under the OpenAPI form of the route's full
path and the method in lower case. A route that comes to a path and method already there takes the
place of the one before it.

`serde_json`'s map keeps its keys in order (its `preserve_order` is off). `schemars` is not in the
repository: its generator `G`, its schemas `S` and what the document calls of them are the
parameter `Schemars`.

Results:
* `openapiPath_injective`: without braces in them, different paths have different OpenAPI forms;
* `placeholders_openapiPath`, `parameterNames_operationObject`: an operation declares the parameters
  its path has placeholders for;
* `operationAt_slot`, `operationAt_eq_none`: at the path and method of a route is the operation of
  the last route that has them, and nowhere else is there one;
* `ordered_buildDocument`: no object of the document has a key twice;
* **`paths_do_not_drift`**: the order in which a path is joined does not matter, and where no path
  has a brace no route is lost and each is described by its own path.
-/

namespace Nestrs.Openapi

open Nestrs.Lib Nestrs.Authz Nestrs.Http

variable {G S : Type}

/-! ## Values -/

/-- `json!({ ... })`. -/
def object (fields : List (String × Json)) : Json := .object (Entries.ofList fields)

/-- `Value::get`, by a key. -/
def field (key : String) : Json → Option Json
  | .object map => map.lookup key
  | _ => none

/-! ## Paths -/

/-- `str::split('/')`. -/
def split (path : String) : List String := (path.toList.splitOn '/').map String.ofList

/-- `str::strip_prefix(':')`. -/
def stripColon (seg : String) : Option String :=
  match seg.toList with
  | ':' :: name => some (String.ofList name)
  | _ => none

/-- `path_parameters`. -/
def pathParameters (path : String) : List Json :=
  ((split path).filterMap stripColon).map fun name =>
    object [("name", .string name), ("in", .string "path"), ("required", .bool true),
      ("schema", object [("type", .string "string")])]

/-- What `openapi_path` makes of one segment. -/
def openapiSegment (seg : String) : String :=
  match stripColon seg with
  | some name => "\x7b" ++ name ++ "\x7d"
  | none => seg

/-- `openapi_path`. -/
def openapiPath (path : String) : String := "/".intercalate ((split path).map openapiSegment)

/-- `str::to_ascii_lowercase`. -/
def toAsciiLowercase (s : String) : String := String.ofList (s.toList.map Char.toLower)

/-! ## The document -/

/-- What the document calls of `schemars`: a generator with the given `definitions_path`,
`Schema::to_value` and `take_definitions(true)`. -/
structure Schemars (G S : Type) where
  intoGenerator : String → G
  toValue : S → Json
  takeDefinitions : G → List (String × Json)

section Document

variable (schemars : Schemars G S)

/-- `op.insert` of an optional text. -/
def insertText (op : List (String × Json)) (key : String) (text : Option String) :
    List (String × Json) :=
  match text with
  | some text => Entries.insert op key (.string text)
  | none => op

/-- `{ "application/json": { "schema": ... } }`. -/
def jsonContent (schema : S) : Json :=
  object [("application/json", object [("schema", schemars.toValue schema)])]

/-- `operation_object`. -/
def operationObject (route : HttpRouteMeta G S) (parameters : List Json) (generator : G) :
    Json × G :=
  let op := Entries.insert [] "operationId" (.string route.handler)
  let op := Entries.insert op "tags" (.array (route.tags.map .string))
  let op := insertText op "summary" route.summary
  let op := insertText op "description" route.description
  let op := if !parameters.isEmpty then Entries.insert op "parameters" (.array parameters) else op
  let (op, generator) := match route.requestBody with
    | some schemaFn =>
      let (schema, generator) := schemaFn generator
      (Entries.insert op "requestBody"
        (object [("required", .bool true), ("content", jsonContent schemars schema)]), generator)
    | none => (op, generator)
  let ok := Entries.insert [] "description" (.string "OK")
  let (ok, generator) := match route.response with
    | some schemaFn =>
      let (schema, generator) := schemaFn generator
      (Entries.insert ok "content" (jsonContent schemars schema), generator)
    | none => (ok, generator)
  (.object (Entries.insert op "responses" (object [("200", .object ok)])), generator)

/-- `methods.insert`, if the item is an object. -/
def insertOperation (item : Json) (method : String) (operation : Json) : Json :=
  match item with
  | .object methods => .object (Entries.insert methods method operation)
  | item => item

/-- One round of the loop over the routes of a controller: the paths so far and the generator. -/
def documentRoute (controller : HttpControllerMeta G S) (state : List (String × Json) × G)
    (route : HttpRouteMeta G S) : List (String × Json) × G :=
  let (paths, generator) := state
  let full := controller.full route
  let (operation, generator) := operationObject schemars route (pathParameters full) generator
  let item := (paths.lookup (openapiPath full)).getD (.object [])
  (Entries.insert paths (openapiPath full)
    (insertOperation item (toAsciiLowercase route.verb.asStr) operation), generator)

/-- The loops over the controllers and their routes. -/
def documentPaths (controllers : List (HttpControllerMeta G S)) (generator : G) :
    List (String × Json) × G :=
  controllers.foldl
    (fun state controller => controller.routes.foldl (documentRoute schemars controller) state)
    ([], generator)

/-- `build_document`, of the controllers discovery returns. -/
def buildDocument (controllers : List (HttpControllerMeta G S)) (title version : String)
    (description : Option String) : Json :=
  let (paths, generator) :=
    documentPaths schemars controllers (schemars.intoGenerator "/components/schemas")
  let info := Entries.ofList [("title", .string title), ("version", .string version)]
  object [("openapi", .string "3.1.2"),
    ("info", .object (insertText info "description" description)), ("paths", .object paths),
    ("components", object [("schemas", .object (schemars.takeDefinitions generator))])]

end Document

/-! ## The OpenAPI form of a path -/

/-- No literal brace. -/
def BraceFree (path : String) : Prop := '{' ∉ path.toList ∧ '}' ∉ path.toList

instance (path : String) : Decidable (BraceFree path) :=
  inferInstanceAs (Decidable ('{' ∉ path.toList ∧ '}' ∉ path.toList))

/-- The names between braces of an OpenAPI path. -/
def placeholders (path : String) : List String :=
  (Segments.names '{' '}' path.toList).map String.ofList

/-- A segment in braces in poem's syntax. -/
def colonForm : List Char → List Char
  | '{' :: rest => ':' :: rest.dropLast
  | s => s

theorem stripColon_eq_some_iff {seg name : String} :
    stripColon seg = some name ↔ seg.toList = ':' :: name.toList := by
  unfold stripColon
  split
  · next rest h => rw [h, Option.some.injEq, List.cons.injEq, ← String.toList_inj]; simp
  · next h => simpa using fun he => h _ he

theorem toList_openapiSegment_some {seg name : String} (h : stripColon seg = some name) :
    (openapiSegment seg).toList = '{' :: name.toList ++ ['}'] := by
  simp [openapiSegment, h]

theorem openapiSegment_none {seg : String} (h : stripColon seg = none) :
    openapiSegment seg = seg := by
  simp [openapiSegment, h]

theorem toList_openapiPath (path : String) :
    (openapiPath path).toList =
      Segments.map '/' (fun s => (openapiSegment (String.ofList s)).toList) path.toList := by
  simp [openapiPath, split, Segments.map, Function.comp_def]

theorem BraceFree.segment {path : String} (h : BraceFree path) {s : List Char}
    (hs : s ∈ path.toList.splitOn '/') : BraceFree (String.ofList s) := by
  have hsub := Segments.subset_of_mem_splitOn hs
  unfold BraceFree
  rw [String.toList_ofList]
  exact ⟨fun hc => h.1 (hsub hc), fun hc => h.2 (hsub hc)⟩

/-- The OpenAPI form of a segment is a segment. -/
theorem slash_notMem_openapiSegment {seg : String} (h : '/' ∉ seg.toList) :
    '/' ∉ (openapiSegment seg).toList := by
  cases hs : stripColon seg with
  | none => rwa [openapiSegment_none hs]
  | some name =>
    rw [stripColon_eq_some_iff.mp hs] at h
    rw [toList_openapiSegment_some hs]
    simp_all

theorem colonForm_openapiSegment {seg : String} (h : BraceFree seg) :
    colonForm (openapiSegment seg).toList = seg.toList := by
  cases hs : stripColon seg with
  | none =>
    rw [openapiSegment_none hs]
    unfold colonForm
    split
    · next rest hseg => exact absurd (by simp [hseg]) h.1
    · rfl
  | some name =>
    rw [toList_openapiSegment_some hs, stripColon_eq_some_iff.mp hs]
    simp [colonForm]

/-- **Nothing of a path without braces is lost in its OpenAPI form.** -/
theorem colonForm_openapiPath {path : String} (h : BraceFree path) :
    Segments.map '/' colonForm (openapiPath path).toList = path.toList := by
  rw [toList_openapiPath]
  refine Segments.map_map (fun s hs => ?_) fun s hs => ?_
  · exact slash_notMem_openapiSegment (by simpa using Segments.notMem_of_mem_splitOn hs)
  · simpa using colonForm_openapiSegment (h.segment hs)

theorem openapiPath_injective {path path' : String} (h : BraceFree path) (h' : BraceFree path')
    (heq : openapiPath path = openapiPath path') : path = path' := by
  rw [← String.toList_inj, ← colonForm_openapiPath h, heq, colonForm_openapiPath h']

/-- A brace makes two paths one. -/
example : openapiPath "/users/{id}" = openapiPath "/users/:id" := by decide

/-- The placeholders of one segment, before whatever follows it. -/
theorem names_openapiSegment {seg : String} (h : BraceFree seg) (rest : List Char) :
    Segments.names '{' '}' ((openapiSegment seg).toList ++ rest) =
      ((stripColon seg).map String.toList).toList ++ Segments.names '{' '}' rest := by
  cases hs : stripColon seg with
  | none =>
    rw [openapiSegment_none hs, Segments.names_append_of_notMem h.1]
    rfl
  | some name =>
    have hname : '}' ∉ name.toList := by
      have hclosing := h.2
      rw [stripColon_eq_some_iff.mp hs] at hclosing
      exact fun hc => hclosing (List.mem_cons_of_mem _ hc)
    rw [toList_openapiSegment_some hs, List.append_assoc, List.singleton_append,
      Segments.names_bracketed hname]
    rfl

/-- **The placeholders of an OpenAPI path are the `:name` segments it was made of.** -/
theorem placeholders_openapiPath {path : String} (h : BraceFree path) :
    placeholders (openapiPath path) = (split path).filterMap stripColon := by
  unfold placeholders split
  rw [toList_openapiPath, Segments.names_map (by decide)
    (g := fun s => ((stripColon (String.ofList s)).map String.toList).toList)
    fun s hs rest => names_openapiSegment (h.segment hs) rest]
  rw [List.map_flatMap, List.filterMap_map, List.filterMap_eq_flatMap_toList]
  congr 1
  funext s
  cases hs : stripColon (String.ofList s) <;> simp [hs]

/-! ## One operation -/

/-- The names among the parameters of an operation. -/
def parameterNames (operation : Json) : List String :=
  match field "parameters" operation with
  | some (.array parameters) => parameters.filterMap fun parameter =>
    match field "name" parameter with
    | some (.string name) => some name
    | _ => none
  | _ => []

section Document

variable (schemars : Schemars G S)

theorem lookup_insertText {op : List (String × Json)} {key k : String} (h : k ≠ key)
    (text : Option String) : (insertText op key text).lookup k = op.lookup k := by
  cases text with
  | none => rfl
  | some text => simp [insertText, h]

theorem field_parameters (route : HttpRouteMeta G S) (parameters : List Json) (g : G) :
    field "parameters" (operationObject schemars route parameters g).1 =
      if parameters.isEmpty then none else some (.array parameters) := by
  unfold operationObject
  cases route.requestBody <;> cases route.response <;> cases parameters <;>
    simp [field, lookup_insertText]

theorem parameterNames_operationObject (route : HttpRouteMeta G S) (path : String) (g : G) :
    parameterNames (operationObject schemars route (pathParameters path) g).1 =
      (split path).filterMap stripColon := by
  unfold parameterNames
  rw [field_parameters]
  unfold pathParameters
  generalize (split path).filterMap stripColon = names
  cases names with
  | nil => rfl
  | cons name names => simp [object, field, Entries.ofList, List.filterMap_map]

/-! ## The paths -/

/-- Where a route's operation goes: the path and the method. -/
def slot (controller : HttpControllerMeta G S) (route : HttpRouteMeta G S) : String × String :=
  (openapiPath (controller.full route), toAsciiLowercase route.verb.asStr)

/-- The operation at a path and a method. -/
def operationIn (paths : List (String × Json)) (key : String × String) : Option Json :=
  (paths.lookup key.1).bind (field key.2)

/-- Every path has an object of methods. -/
def Items (paths : List (String × Json)) : Prop :=
  ∀ path item, paths.lookup path = some item → ∃ methods, item = .object methods

/-- What the item of a path is when a route comes to it. -/
theorem Items.getD {paths : List (String × Json)} (h : Items paths) (path : String) :
    ∃ methods, (paths.lookup path).getD (.object []) = .object methods ∧
      ∀ method, operationIn paths (path, method) = methods.lookup method := by
  unfold operationIn
  cases hitem : paths.lookup path with
  | none => exact ⟨[], rfl, fun method => by simp [hitem]⟩
  | some item =>
    obtain ⟨methods, rfl⟩ := h path item hitem
    exact ⟨methods, rfl, fun method => by simp [hitem, field]⟩

theorem operationIn_insert (paths methods : List (String × Json)) (path : String)
    (key : String × String) :
    operationIn (Entries.insert paths path (.object methods)) key =
      if key.1 = path then methods.lookup key.2 else operationIn paths key := by
  unfold operationIn
  rw [Entries.lookup_insert]
  split <;> rfl

/-- What the round of a route does, the item of its path being an object. -/
theorem documentRoute_fst {state : List (String × Json) × G} {methods : List (String × Json)}
    {controller : HttpControllerMeta G S} {route : HttpRouteMeta G S}
    (h : (state.1.lookup (slot controller route).1).getD (.object []) = .object methods) :
    (documentRoute schemars controller state route).1 =
      Entries.insert state.1 (slot controller route).1 (.object (Entries.insert methods
        (slot controller route).2
        (operationObject schemars route (pathParameters (controller.full route)) state.2).1)) := by
  simp only [slot] at h ⊢
  simp only [documentRoute, h, insertOperation]

theorem items_documentRoute {state : List (String × Json) × G} (h : Items state.1)
    (controller : HttpControllerMeta G S) (route : HttpRouteMeta G S) :
    Items (documentRoute schemars controller state route).1 := by
  obtain ⟨methods, hmethods, -⟩ := h.getD (slot controller route).1
  intro path item hitem
  rw [documentRoute_fst schemars hmethods, Entries.lookup_insert] at hitem
  split at hitem
  · exact ⟨_, (Option.some.inj hitem).symm⟩
  · exact h path item hitem

/-- **One route puts its operation into its own slot, and leaves the others alone.** -/
theorem operationIn_documentRoute {state : List (String × Json) × G} (h : Items state.1)
    (controller : HttpControllerMeta G S) (route : HttpRouteMeta G S) (key : String × String) :
    operationIn (documentRoute schemars controller state route).1 key =
      if key = slot controller route then
        some (operationObject schemars route (pathParameters (controller.full route)) state.2).1
      else operationIn state.1 key := by
  obtain ⟨methods, hmethods, hold⟩ := h.getD (slot controller route).1
  rw [documentRoute_fst schemars hmethods, operationIn_insert, Entries.lookup_insert]
  by_cases hpath : key.1 = (slot controller route).1
  · rw [if_pos hpath, ← hold, ← hpath]
    by_cases hmethod : key.2 = (slot controller route).2
    · rw [if_pos hmethod, if_pos (Prod.ext hpath hmethod)]
    · rw [if_neg hmethod, if_neg fun h => hmethod (congrArg Prod.snd h)]
  · rw [if_neg hpath, if_neg fun h => hpath (congrArg Prod.fst h)]

/-! ## All routes -/

/-- The controllers' routes, in the order of the loops. -/
def listed (controllers : List (HttpControllerMeta G S)) :
    List (HttpControllerMeta G S × HttpRouteMeta G S) :=
  controllers.flatMap fun controller => controller.routes.map fun route => (controller, route)

/-- `documentRoute` for one route after the other. -/
def documentRoutes (routes : List (HttpControllerMeta G S × HttpRouteMeta G S))
    (state : List (String × Json) × G) : List (String × Json) × G :=
  routes.foldl (fun state route => documentRoute schemars route.1 state route.2) state

theorem mem_listed {controllers : List (HttpControllerMeta G S)}
    {controller : HttpControllerMeta G S} {route : HttpRouteMeta G S} :
    (controller, route) ∈ listed controllers ↔
      controller ∈ controllers ∧ route ∈ controller.routes := by
  simp only [listed, List.mem_flatMap, List.mem_map, Prod.mk.injEq]
  constructor
  · rintro ⟨_, hcontroller, _, hroute, rfl, rfl⟩
    exact ⟨hcontroller, hroute⟩
  · rintro ⟨hcontroller, hroute⟩
    exact ⟨controller, hcontroller, route, hroute, rfl, rfl⟩

theorem documentPaths_eq (controllers : List (HttpControllerMeta G S)) (g : G) :
    documentPaths schemars controllers g =
      documentRoutes schemars (listed controllers) ([], g) := by
  unfold documentPaths documentRoutes listed
  rw [List.foldl_flatMap]
  simp only [List.foldl_map]

theorem items_documentRoutes (routes : List (HttpControllerMeta G S × HttpRouteMeta G S))
    {state : List (String × Json) × G} (h : Items state.1) :
    Items (documentRoutes schemars routes state).1 := by
  induction routes generalizing state with
  | nil => exact h
  | cons route routes ih => exact ih (items_documentRoute schemars h route.1 route.2)

/-- Routes with other slots leave a slot as it is. -/
theorem operationIn_documentRoutes_of_ne {key : String × String}
    {routes : List (HttpControllerMeta G S × HttpRouteMeta G S)}
    (hne : ∀ r ∈ routes, slot r.1 r.2 ≠ key)
    {state : List (String × Json) × G} (h : Items state.1) :
    operationIn (documentRoutes schemars routes state).1 key = operationIn state.1 key := by
  induction routes generalizing state with
  | nil => rfl
  | cons r routes ih =>
    have hrest := fun r' hr' => hne r' (List.mem_cons_of_mem _ hr')
    have hstep := operationIn_documentRoute schemars h r.1 r.2 key
    rw [if_neg (Ne.symm (hne r List.mem_cons_self))] at hstep
    exact (ih hrest (items_documentRoute schemars h r.1 r.2)).trans hstep

/-- **A slot has the operation of the last route that has the slot.** -/
theorem operationIn_documentRoutes
    {before after : List (HttpControllerMeta G S × HttpRouteMeta G S)}
    {controller : HttpControllerMeta G S} {route : HttpRouteMeta G S}
    (hlast : ∀ r ∈ after, slot r.1 r.2 ≠ slot controller route)
    {state : List (String × Json) × G} (h : Items state.1) :
    operationIn (documentRoutes schemars (before ++ (controller, route) :: after) state).1
        (slot controller route) =
      some (operationObject schemars route (pathParameters (controller.full route))
        (documentRoutes schemars before state).2).1 := by
  have hbefore := items_documentRoutes schemars before h
  have hsplit : documentRoutes schemars (before ++ (controller, route) :: after) state =
      documentRoutes schemars after
        (documentRoute schemars controller (documentRoutes schemars before state) route) := by
    unfold documentRoutes
    rw [List.foldl_append, List.foldl_cons]
  rw [hsplit, operationIn_documentRoutes_of_ne schemars hlast
      (items_documentRoute schemars hbefore controller route),
    operationIn_documentRoute schemars hbefore, if_pos rfl]

/-- Of the routes with the slot of a route, one is the last. -/
theorem exists_last {routes : List (HttpControllerMeta G S × HttpRouteMeta G S)}
    {controller : HttpControllerMeta G S} {route : HttpRouteMeta G S}
    (h : (controller, route) ∈ routes) :
    ∃ before last after, routes = before ++ last :: after ∧
      slot last.1 last.2 = slot controller route ∧
      ∀ r ∈ after, slot r.1 r.2 ≠ slot controller route := by
  have hsome : (routes.reverse.find? fun r => slot r.1 r.2 = slot controller route).isSome := by
    rw [List.find?_isSome]
    exact ⟨(controller, route), List.mem_reverse.mpr h, by simp⟩
  obtain ⟨last, hfind⟩ := Option.isSome_iff_exists.mp hsome
  obtain ⟨hslot, after, before, hroutes, hafter⟩ := List.find?_eq_some_iff_append.mp hfind
  refine ⟨before.reverse, last, after.reverse, ?_, by simpa using hslot, fun r hr => ?_⟩
  · rw [← List.reverse_inj, hroutes]
    simp
  · simpa using hafter r (List.mem_reverse.mp hr)

/-! ## The document -/

/-- The operation of a document at a path and a method. -/
def operationAt (document : Json) (key : String × String) : Option Json :=
  ((field "paths" document).bind (field key.1)).bind (field key.2)

theorem operationAt_buildDocument (controllers : List (HttpControllerMeta G S))
    (title version : String) (description : Option String) (key : String × String) :
    operationAt (buildDocument schemars controllers title version description) key =
      operationIn (documentRoutes schemars (listed controllers)
        ([], schemars.intoGenerator "/components/schemas")).1 key := by
  unfold buildDocument operationAt
  rw [documentPaths_eq]
  simp [object, Entries.ofList, field, operationIn]

theorem items_nil : Items [] := fun _ _ h => nomatch h

/-- **Every route has an operation.** It is the one of the last route with the same slot. -/
theorem operationAt_slot {controllers : List (HttpControllerMeta G S)}
    {controller : HttpControllerMeta G S} (hcontroller : controller ∈ controllers)
    {route : HttpRouteMeta G S} (hroute : route ∈ controller.routes) (title version : String)
    (description : Option String) :
    ∃ last ∈ listed controllers, slot last.1 last.2 = slot controller route ∧ ∃ g,
      operationAt (buildDocument schemars controllers title version description)
          (slot controller route) =
        some (operationObject schemars last.2 (pathParameters (last.1.full last.2)) g).1 := by
  obtain ⟨before, ⟨controller', route'⟩, after, hlisted, hslot, hafter⟩ :=
    exists_last (mem_listed.mpr ⟨hcontroller, hroute⟩)
  have hmem : (controller', route') ∈ listed controllers := by simp [hlisted]
  have hlast : ∀ r ∈ after, slot r.1 r.2 ≠ slot controller' route' := by
    rwa [hslot]
  refine ⟨(controller', route'), hmem, hslot,
    (documentRoutes schemars before ([], schemars.intoGenerator "/components/schemas")).2, ?_⟩
  rw [← hslot, operationAt_buildDocument, hlisted,
    operationIn_documentRoutes schemars hlast items_nil]

/-- The document has operations for the routes only. -/
theorem operationAt_eq_none {controllers : List (HttpControllerMeta G S)} {key : String × String}
    (hne : ∀ controller ∈ controllers, ∀ route ∈ controller.routes,
      slot controller route ≠ key) (title version : String) (description : Option String) :
    operationAt (buildDocument schemars controllers title version description) key = none := by
  rw [operationAt_buildDocument, operationIn_documentRoutes_of_ne schemars ?_ items_nil]
  · rfl
  · intro r hr
    obtain ⟨hcontroller, hroute⟩ := mem_listed.mp hr
    exact hne r.1 hcontroller r.2 hroute

theorem toAsciiLowercase_asStr_injective {verb verb' : HttpVerb}
    (h : toAsciiLowercase verb.asStr = toAsciiLowercase verb'.asStr) : verb = verb' := by
  cases verb <;> cases verb' <;> first | rfl | exact absurd h (by decide)

/-- Without braces, a slot is one verb and one full path. -/
theorem slot_injective {controller controller' : HttpControllerMeta G S}
    {route route' : HttpRouteMeta G S} (hfree : BraceFree (controller.full route))
    (hfree' : BraceFree (controller'.full route'))
    (h : slot controller route = slot controller' route') :
    route.verb = route'.verb ∧ controller.full route = controller'.full route' := by
  obtain ⟨hpath, hmethod⟩ := Prod.mk.injEq .. ▸ h
  exact ⟨toAsciiLowercase_asStr_injective hmethod, openapiPath_injective hfree hfree' hpath⟩

end Document

/-! ## No key comes twice -/

/-- Every object has its keys in order, so none comes twice. -/
inductive Ordered : Json → Prop
  | null : Ordered .null
  | bool (b : Bool) : Ordered (.bool b)
  | number (text : String) : Ordered (.number text)
  | string (s : String) : Ordered (.string s)
  | array {items : List Json} (h : ∀ item ∈ items, Ordered item) : Ordered (.array items)
  | object {map : List (String × Json)} (hkeys : Entries.Ascending map)
      (h : ∀ e ∈ map, Ordered e.2) : Ordered (.object map)

/-- What comes from `schemars` is a `serde_json::Value` as well. -/
structure Schemars.Ordered (schemars : Schemars G S) : Prop where
  toValue : ∀ schema, Openapi.Ordered (schemars.toValue schema)
  takeDefinitions : ∀ g, Openapi.Ordered (.object (schemars.takeDefinitions g))

theorem ordered_insert {map : List (String × Json)} (h : Ordered (.object map)) (key : String)
    {value : Json} (hvalue : Ordered value) : Ordered (.object (Entries.insert map key value)) := by
  cases h with
  | object hkeys h =>
    refine .object (Entries.ascending_insert hkeys key value) fun e he => ?_
    rcases Entries.mem_insert he with rfl | he
    · exact hvalue
    · exact h e he

theorem ordered_empty : Ordered (.object []) :=
  .object List.Pairwise.nil fun _ h => nomatch h

theorem ordered_object {fields : List (String × Json)} (h : ∀ f ∈ fields, Ordered f.2) :
    Ordered (object fields) :=
  .object (Entries.ascending_ofList fields) fun e he => h e (Entries.mem_of_mem_ofList he)

theorem ordered_insertText {op : List (String × Json)} (h : Ordered (.object op)) (key : String)
    (text : Option String) : Ordered (.object (insertText op key text)) := by
  cases text with
  | none => exact h
  | some text => exact ordered_insert h key (.string text)

theorem ordered_pathParameters (path : String) : ∀ v ∈ pathParameters path, Ordered v := by
  intro v hv
  obtain ⟨name, -, rfl⟩ := List.mem_map.mp hv
  have hschema : Ordered (object [("type", .string "string")]) :=
    ordered_object (by simpa using Ordered.string "string")
  refine ordered_object ?_
  simp only [List.forall_mem_cons, List.not_mem_nil, IsEmpty.forall_iff, implies_true, and_true]
  exact ⟨.string name, .string "path", .bool true, hschema⟩

/-- The item of a path stays ordered with one more operation. -/
theorem ordered_insertOperation {item : Json} (h : Ordered item) (method : String)
    {operation : Json} (hoperation : Ordered operation) :
    Ordered (insertOperation item method operation) := by
  cases item with
  | object methods => exact ordered_insert h method hoperation
  | _ => exact h

section Ordered

variable {schemars : Schemars G S} (hschemars : schemars.Ordered)
include hschemars

theorem ordered_jsonContent (schema : S) : Ordered (jsonContent schemars schema) := by
  have hschema : Ordered (object [("schema", schemars.toValue schema)]) :=
    ordered_object (by simpa using hschemars.toValue schema)
  exact ordered_object (by simpa using hschema)

theorem ordered_operationObject (route : HttpRouteMeta G S) {parameters : List Json}
    (hparameters : ∀ v ∈ parameters, Ordered v) (g : G) :
    Ordered (operationObject schemars route parameters g).1 := by
  have hbody (schema : S) : Ordered
      (object [("required", .bool true), ("content", jsonContent schemars schema)]) :=
    ordered_object (by simpa using ⟨Ordered.bool true, ordered_jsonContent hschemars schema⟩)
  have hok : Ordered (.object (Entries.insert [] "description" (.string "OK"))) :=
    ordered_insert ordered_empty _ (.string "OK")
  have hresponses {ok : List (String × Json)} (h : Ordered (.object ok)) :
      Ordered (object [("200", .object ok)]) :=
    ordered_object (by simpa using h)
  have htags : Ordered (.array (route.tags.map .string)) :=
    .array (by simpa using fun tag _ => Ordered.string tag)
  have hhead := ordered_insert
    (ordered_insert ordered_empty "operationId" (.string route.handler)) "tags" htags
  have htexts := ordered_insertText (ordered_insertText hhead "summary" route.summary) "description"
    route.description
  simp only [operationObject]
  generalize insertText (insertText _ "summary" route.summary) "description" route.description = op
    at htexts ⊢
  have hop : Ordered (.object (if !parameters.isEmpty then
      Entries.insert op "parameters" (.array parameters) else op)) := by
    split
    · exact ordered_insert htexts _ (.array hparameters)
    · exact htexts
  have hcontent (schema : S) : Ordered (.object (Entries.insert
      (Entries.insert [] "description" (.string "OK")) "content" (jsonContent schemars schema))) :=
    ordered_insert hok _ (ordered_jsonContent hschemars schema)
  -- The request body and the response, each with a schema or without.
  cases route.requestBody with
  | none =>
    cases route.response with
    | none => exact ordered_insert hop _ (hresponses hok)
    | some response => exact ordered_insert hop _ (hresponses (hcontent (response g).1))
  | some requestBody =>
    have hop := ordered_insert hop "requestBody" (hbody (requestBody g).1)
    cases route.response with
    | none => exact ordered_insert hop _ (hresponses hok)
    | some response =>
      exact ordered_insert hop _ (hresponses (hcontent (response (requestBody g).2).1))

theorem ordered_documentRoute {state : List (String × Json) × G} (h : Ordered (.object state.1))
    (controller : HttpControllerMeta G S) (route : HttpRouteMeta G S) :
    Ordered (.object (documentRoute schemars controller state route).1) := by
  have hitem (path : String) : Ordered ((state.1.lookup path).getD (.object [])) := by
    cases hlookup : state.1.lookup path with
    | none => exact ordered_empty
    | some item =>
      cases h with
      | object _ h =>
        obtain ⟨before, after, hmem, -⟩ := List.lookup_eq_some_iff.mp hlookup
        exact h (path, item) (by simp [hmem])
  exact ordered_insert h _ (ordered_insertOperation (hitem _) _
    (ordered_operationObject hschemars route (ordered_pathParameters _) state.2))

theorem ordered_documentRoutes (routes : List (HttpControllerMeta G S × HttpRouteMeta G S))
    {state : List (String × Json) × G} (h : Ordered (.object state.1)) :
    Ordered (.object (documentRoutes schemars routes state).1) := by
  induction routes generalizing state with
  | nil => exact h
  | cons r routes ih => exact ih (ordered_documentRoute hschemars h r.1 r.2)

/-- **No object of the document has a key twice.** -/
theorem ordered_buildDocument (controllers : List (HttpControllerMeta G S))
    (title version : String) (description : Option String) :
    Ordered (buildDocument schemars controllers title version description) := by
  have hpaths : Ordered (.object (documentRoutes schemars (listed controllers)
      ([], schemars.intoGenerator "/components/schemas")).1) :=
    ordered_documentRoutes hschemars _ ordered_empty
  have hinfo : Ordered (object [("title", .string title), ("version", .string version)]) :=
    ordered_object (by simpa using ⟨Ordered.string title, Ordered.string version⟩)
  have hcomponents (g : G) :
      Ordered (object [("schemas", .object (schemars.takeDefinitions g))]) :=
    ordered_object (by simpa using hschemars.takeDefinitions g)
  unfold buildDocument
  rw [documentPaths_eq]
  refine ordered_object ?_
  simp only [List.forall_mem_cons, List.not_mem_nil, IsEmpty.forall_iff, implies_true, and_true]
  exact ⟨.string "3.1.2", ordered_insertText hinfo "description" description, hpaths,
    hcomponents _⟩

end Ordered

/-- **What is logged, what is documented and what is declared are one path.** `join_path` is
associative, so the version may be joined to the whole of a route's path; and if no path has a
literal brace, each route is documented under its own path and verb, with the parameters the path
has placeholders for, by an operation made for this path and verb. -/
theorem paths_do_not_drift :
    (∀ a b c : String, joinPath (joinPath a b) c = joinPath a (joinPath b c)) ∧
    (∀ v p r : String,
      joinPath (versionPath (some v) p) r = joinPath ("/v" ++ v) (joinPath p r)) ∧
    ∀ {G S : Type} (schemars : Schemars G S) (controllers : List (HttpControllerMeta G S))
        (title version : String) (description : Option String),
      (∀ controller ∈ controllers, ∀ route ∈ controller.routes,
        BraceFree (controller.full route)) →
      (∀ controller ∈ controllers, ∀ route ∈ controller.routes, ∃ operation,
        operationAt (buildDocument schemars controllers title version description)
            (openapiPath (controller.full route), toAsciiLowercase route.verb.asStr) =
          some operation ∧
        parameterNames operation = placeholders (openapiPath (controller.full route)) ∧
        ∃ controller' ∈ controllers, ∃ route' ∈ controller'.routes,
          route'.verb = route.verb ∧ controller'.full route' = controller.full route ∧
          ∃ g, operation =
            (operationObject schemars route' (pathParameters (controller.full route)) g).1) ∧
      ∀ controller ∈ controllers, ∀ route ∈ controller.routes,
        ∀ controller' ∈ controllers, ∀ route' ∈ controller'.routes,
        (route.verb, controller.full route) ≠ (route'.verb, controller'.full route') →
        (openapiPath (controller.full route), toAsciiLowercase route.verb.asStr) ≠
          (openapiPath (controller'.full route'), toAsciiLowercase route'.verb.asStr) := by
  refine ⟨joinPath_assoc, fun v p r => joinPath_assoc ("/v" ++ v) p r, ?_⟩
  intro G S schemars controllers title version description hfree
  constructor
  · intro controller hcontroller route hroute
    obtain ⟨last, hlast, hslot, g, hoperation⟩ :=
      operationAt_slot schemars hcontroller hroute title version description
    obtain ⟨hcontroller', hroute'⟩ := mem_listed.mp hlast
    have hroutefree := hfree controller hcontroller route hroute
    obtain ⟨hverb, hfull⟩ :=
      slot_injective (hfree last.1 hcontroller' last.2 hroute') hroutefree hslot
    refine ⟨_, hoperation, ?_, last.1, hcontroller', last.2, hroute', hverb, hfull, g, ?_⟩
    · rw [parameterNames_operationObject, hfull, placeholders_openapiPath hroutefree]
    · rw [hfull]
  · intro controller hcontroller route hroute controller' hcontroller' route' hroute' hne hslot
    obtain ⟨hverb, hfull⟩ := slot_injective (hfree controller hcontroller route hroute)
      (hfree controller' hcontroller' route' hroute') hslot
    exact hne (by rw [hverb, hfull])

/-- A route below `/v1/users`. -/
def showPost : HttpRouteMeta Unit Unit :=
  ⟨.get, "/:id/posts/:post", "post", none, none, ["Users"], none, none⟩

def usersController : HttpControllerMeta Unit Unit where
  path := "/users/"
  version := some "1"
  routes := [⟨.get, "/", "list", none, none, ["Users"], none, none⟩, showPost]

def noSchemas : Schemars Unit Unit := ⟨fun _ => (), fun _ => .null, fun _ => []⟩

theorem showPost_documented :
    ∃ operation, operationAt (buildDocument noSchemas [usersController] "nestrs API" "0.1.0" none)
        ("/v1/users/{id}/posts/{post}", "get") = some operation ∧
      parameterNames operation = ["id", "post"] := by
  obtain ⟨operation, hoperation, hnames, -⟩ :=
    (paths_do_not_drift.2.2 noSchemas [usersController] "nestrs API" "0.1.0" none (by decide)).1
      usersController (by simp) showPost (by simp [usersController])
  have hpath : openapiPath (usersController.full showPost) = "/v1/users/{id}/posts/{post}" := by
    decide
  have hmethod : toAsciiLowercase showPost.verb.asStr = "get" := by decide
  have hplaceholders : placeholders "/v1/users/{id}/posts/{post}" = ["id", "post"] := by decide
  rw [hpath, hmethod] at hoperation
  rw [hpath, hplaceholders] at hnames
  exact ⟨operation, hoperation, hnames⟩

end Nestrs.Openapi
