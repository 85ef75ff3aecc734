import Nestrs.Crud.Http

/-!
# The generated GraphQL operations

Model of the resolver methods `#[crud]` emits (`crates/nestrs-graphql-macros/src/crud.rs`), of the
gate `authorize` (`crates/nestrs-authz-graphql/src/authorize.rs`, `context.rs`) and of the endpoint
they run behind (`crates/nestrs-graphql/src/context.rs`).

The caller's ability reaches a resolver on two ways. The link-time `ContextSeed` forwards the
ability on the request into the operation's context, which `authorize` reads; and an
`OperationGuard`, if the app has bound one, may install it as the ambient ability, which the data
layer reads. `GraphqlAbilityBridge` is the guard the framework offers.

A request is the list of the operations it selects, in order, over all documents of a batch: the
executor runs a batch's documents and a document's mutations one after the other.

Results:
* `authorize_eq_ok`, `bindRow_eq_ok`: what an operation that gets past its gate, or past its by-id
  load, has checked;
* `scopeOf_caller`: the ambient ability, if there is one, is the one in the context.
-/

namespace Nestrs.Crud

open Nestrs.Lib Nestrs.Authz Nestrs.Orm Nestrs.Http

/-- `async_graphql::Error`: its message and the `code` among its extensions. -/
structure GraphqlError where
  message : String
  code : Option String
deriving DecidableEq, Repr

/-- What an operation returns. -/
inductive GraphqlData {σ : Schema} (E : Entity σ) where
  | rows (items : List (Item E))
  | row (item : Option (Item E))
  | flag (b : Bool)

/-- The rows an operation returns. -/
def GraphqlData.shown {σ : Schema} {E : Entity σ} : GraphqlData E → List E.Row
  | rows items => items.map Item.row
  | row item => item.toList.map Item.row
  | flag _ => []

variable {σ : Schema} {E : Entity σ}

/-- A selection of one of the generated operations, with its arguments. -/
inductive GraphqlOp (surface : Surface E) where
  | list
  | get (id : String)
  | create (input : surface.service.Create)
  | update (id : String) (input : surface.service.Update)
  | delete (id : String)

/-- `ability`: the ability in the operation's context. -/
def contextAbility (ctx : Option Ability) : Except GraphqlError Ability :=
  match ctx with
  | some ability => .ok ability
  | none => .error
    ⟨"missing request `Ability` — is the GraphQL auth bridge installed on /graphql?", none⟩

/-- `authorize`. -/
def authorize (ctx : Option Ability) (action : Action) (subject : TypeId) :
    Except GraphqlError Unit := do
  let ability ← contextAbility ctx
  if ability.canClass action subject then .ok () else .error ⟨"forbidden", some "FORBIDDEN"⟩

/-- `gql_err`. -/
def graphqlError (e : DbErr) : GraphqlError := ⟨e.toString, none⟩

section Resolve

variable (surface : Surface E) (db : Backend E)

/-- `parse_id`. -/
def parseId (id : String) : Except GraphqlError Uuid :=
  match surface.parseUuid id with
  | .error e => .error ⟨e, none⟩
  | .ok id => if versionNum id = 7 then .ok id else .error ⟨"id must be a UUID v7", none⟩

/-- The by-id load of a generated operation: what it does with the row it finds, and what it
returns when there is none. -/
def bindRow (ambient : Ambient) (action : Action) (id : String) (t : Table E)
    (missing : GraphqlData E)
    (found : E.Row → Except GraphqlError (GraphqlData E × Table E)) :
    Except GraphqlError (GraphqlData E × Table E) := do
  let id ← parseId surface id
  match ← (CrudService.access ambient action id t).mapError graphqlError with
  | .found model => found model
  | .denied => .error ⟨"forbidden", none⟩
  | .missing => .ok (missing, t)

/-- The generated resolver methods. -/
def resolve (ctx : Option Ability) (ambient : Ambient) (op : GraphqlOp surface) (t : Table E) :
    Except GraphqlError (GraphqlData E × Table E) :=
  match op with
  | .list => do
    authorize ctx .read E.type
    let rows ← (CrudService.list ambient db t).mapError graphqlError
    .ok (.rows (rows.map (item surface)), t)
  | .get id =>
    bindRow surface ambient .read id t (.row none) fun model =>
      .ok (.row (some (item surface model)), t)
  | .create input => do
    authorize ctx .create E.type
    let (row, t) ← (surface.service.create ambient db input t).mapError graphqlError
    .ok (.row (some (item surface row)), t)
  | .update id input =>
    bindRow surface ambient .update id t (.row none) fun model => do
      let (row, t) ← (surface.service.update ambient db model input t).mapError graphqlError
      .ok (.row (some (item surface row)), t)
  | .delete id =>
    bindRow surface ambient .delete id t (.flag false) fun model => do
      let t ← (CrudService.delete ambient db model t).mapError graphqlError
      .ok (.flag true, t)

/-- The table after an operation: one that fails has written nothing. -/
def tableAfter (ctx : Option Ability) (ambient : Ambient) (op : GraphqlOp surface) (t : Table E) :
    Table E :=
  match resolve surface db ctx ambient op t with
  | .ok (_, t) => t
  | .error _ => t

/-- The operations of a request, in order: what each returns, and the table at the end. -/
def execute (ctx : Option Ability) (ambient : Ambient) :
    List (GraphqlOp surface) → Table E →
      List (Except GraphqlError (GraphqlData E)) × Table E
  | [], t => ([], t)
  | op :: ops, t =>
    let (results, t') := execute ctx ambient ops (tableAfter surface db ctx ambient op t)
    ((resolve surface db ctx ambient op t).map Prod.fst :: results, t')

end Resolve

/-! ## The endpoint -/

/-- `OperationGuard`: what it makes of the request before the operation, and the ability it
installs around it, if any, which is the caller's. -/
structure OperationGuard (ρ : Type) where
  before : Request ρ → Request ρ
  around : Request ρ → Option Ability
  caller : ∀ req ability, around req = some ability → req.ability = some ability

/-- `GraphqlAbilityBridge<A, G>`: authenticate, build the ability, install it. -/
def graphqlAbilityBridge {ρ : Type} (auth ability : Guard ρ) : OperationGuard ρ where
  before req :=
    match auth req with
    | (req, .ok ()) => (ability req).1
    | (req, .error _) => req
  around req := req.ability
  caller _ _ h := h

/-- The request the operations run for, and the ambient ability they run under. -/
def scopeOf {ρ : Type} (opGuard : Option (OperationGuard ρ)) (req : Request ρ) :
    Request ρ × Option Ability :=
  match opGuard with
  | some guard =>
    let req := guard.before req
    (req, guard.around req)
  | none => (req, none)

/-- `ContextEndpoint::call` behind the guards of the transport: a batch that does not parse is an
error, anything else is answered with 200. -/
def endpoint {ρ : Type} (surface : Surface E) (db : Backend E) (executor : Bool)
    (guards : List (Guard ρ)) (opGuard : Option (OperationGuard ρ)) (req : Request ρ)
    (batch : Except PoemError (List (GraphqlOp surface))) (t : Table E) :
    Except PoemError (Response (List (Except GraphqlError (GraphqlData E)))) × Table E :=
  match runGuards guards req with
  | (_, .error refusal) => (.ok ⟨refusal.status, .text refusal.message⟩, t)
  | (req, .ok ()) =>
    let (req, ambient) := scopeOf opGuard req
    match batch with
    | .error e => (.error e, t)
    | .ok ops =>
      let (results, t) := execute surface db req.ability ⟨executor, ambient⟩ ops t
      (.ok ⟨200, .json results⟩, t)

/-! ## What has been checked -/

theorem authorize_eq_ok {ctx : Option Ability} {action : Action} {subject : TypeId} {u : Unit} :
    authorize ctx action subject = .ok u ↔
      ∃ ability, ctx = some ability ∧ ability.canClass action subject = true := by
  unfold authorize contextAbility
  rw [bind_eq_ok]
  constructor
  · rintro ⟨ability, hctx, h⟩
    cases ctx with
    | none => exact nomatch hctx
    | some _ =>
      cases hctx
      split at h
      · rename_i hclass
        exact ⟨ability, rfl, hclass⟩
      · exact nomatch h
  · rintro ⟨ability, rfl, hclass⟩
    exact ⟨ability, rfl, if_pos hclass⟩

section Bind

variable {surface : Surface E} {ambient : Ambient} {t : Table E}

theorem bindRow_eq_ok {action : Action} {id : String} {missing : GraphqlData E}
    {found : E.Row → Except GraphqlError (GraphqlData E × Table E)}
    {out : GraphqlData E × Table E}
    (h : bindRow surface ambient action id t missing found = .ok out) :
    ∃ uuid, parseId surface id = .ok uuid ∧
      ((CrudService.access ambient action uuid t = .ok .missing ∧ out = (missing, t)) ∨
        ∃ model, CrudService.access ambient action uuid t = .ok (.found model) ∧
          found model = .ok out) := by
  unfold bindRow at h
  rw [bind_eq_ok] at h
  obtain ⟨uuid, hid, h⟩ := h
  rw [bind_eq_ok] at h
  obtain ⟨access, haccess, h⟩ := h
  rw [mapError_eq_ok] at haccess
  refine ⟨uuid, hid, ?_⟩
  cases access with
  | found model => exact Or.inr ⟨model, haccess, h⟩
  | denied => exact nomatch h
  | missing =>
    cases h
    exact Or.inl ⟨haccess, rfl⟩

end Bind

theorem scopeOf_caller {ρ : Type} (opGuard : Option (OperationGuard ρ)) (req : Request ρ)
    {ability : Ability} (h : (scopeOf opGuard req).2 = some ability) :
    (scopeOf opGuard req).1.ability = some ability := by
  cases opGuard with
  | none => exact nomatch h
  | some guard => exact guard.caller (guard.before req) ability h

end Nestrs.Crud
