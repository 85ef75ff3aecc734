import Nestrs.Api.Loaders
import Nestrs.Crud.Bind

/-!
# The routes, the resolvers and the gateway of the api app

Model of `apps/api/src`: the tables as `apps/db/src/migrations` creates them, the guards, and what
the app serves behind them. The operations that `#[crud]` generates are those of `Crud`; the app
overrides two of the users' on REST (`create`, `get`) and two on GraphQL (`create_user`, `user`),
and it adds fields that go through the data loaders.

* A request comes with its `Authorization` header, and nothing in its extensions. REST and the
  gateway refuse it without a token that verifies; `/graphql` runs it anyway, with no ability.
* `DbContext` is around every HTTP request; batches of loaders and messages of sockets run on the
  pool. A batch may see any state of the database.
* A `DELETE` that a foreign key restricts fails like any other statement.

`jsonwebtoken`, `validator`, the parser of ids and the comparisons of the database are parameters;
the ids that `Uuid::now_v7` draws are in the requests.
-/

namespace Nestrs.Api

open Nestrs.Lib Nestrs.Authz Nestrs.Orm Nestrs.Http Nestrs.Crud Nestrs.Resource Nestrs.Auth

/-! ## The database -/

/-- The two tables. -/
structure Store where
  users : Table userEntity
  orgs : Table orgEntity

/-- The row of an `INSERT`: every column is `NOT NULL`, and none has a default. -/
def insertRow {E : Entity schema} (active : ActiveModel E) : Except DbErr E.Row :=
  if E.columns.all fun c => ((active.get c).value.map fun v => !v.isNull).getD false then
    .ok (rowOf E fun c => ((active.get c).value).getD (nullOf (schema E.type c)))
  else .error (.exec "null value violates not-null constraint")

/-- Another row has the value of the column. -/
def taken {E : Entity schema} (t : Table E) (column : Column) (r : E.Row) : Bool :=
  t.rows.any fun s => E.key s ≠ E.key r ∧ s.get column = r.get column

namespace Store

variable (store : Store)

/-- The constraints on a row of `user`: `unique_key` on the email, `fk_user_org_id`. -/
def checkUser (r : userEntity.Row) : Option DbErr :=
  if taken store.users "email" r then
    some (.exec "duplicate key value violates unique constraint \"user_email_key\"")
  else if (store.orgs.findById (uuidOf r "org_id")).isNone then
    some (.exec "insert or update on table \"user\" violates foreign key constraint")
  else none

/-- The constraint on a row of `org`: `unique_key` on the name. -/
def checkOrg (r : orgEntity.Row) : Option DbErr :=
  if taken store.orgs "name" r then
    some (.exec "duplicate key value violates unique constraint \"org_name_key\"")
  else none

/-- A row that is stored meets the constraints. -/
def checked {E : Entity schema} (check : E.Row → Option DbErr) (row : Except DbErr E.Row) :
    Except DbErr E.Row := do
  let row ← row
  match check row with
  | some e => .error e
  | none => .ok row

def usersDb (sql : Sql) : Backend userEntity :=
  ⟨sql, fun active _ => checked store.checkUser (insertRow active), store.checkUser⟩

def orgsDb (sql : Sql) : Backend orgEntity :=
  ⟨sql, fun active _ => checked store.checkOrg (insertRow active), store.checkOrg⟩

/-- `ForeignKeyAction::Restrict`: the organisation of a user would be gone. -/
def restricts (orgs : Table orgEntity) : Bool :=
  store.users.rows.any fun r => (store.orgs.findById (uuidOf r "org_id")).isSome &&
    (orgs.findById (uuidOf r "org_id")).isNone

def restrictError : DbErr :=
  .exec "update or delete on table \"org\" violates foreign key constraint \"fk_user_org_id\""

end Store

/-! ## Callers -/

/-- What the app runs on. -/
structure Server (EK DK : Type) where
  engine : Engine EK DK
  uuids : UuidText
  jwt : JwtService EK DK
  rules : Rules
  /-- `ValidationErrors`, as a text. -/
  invalid : user.CreateInput → String
  parseUuid : String → Except String Uuid
  sql : Sql

variable {EK DK : Type}

/-- A request, as it comes in. -/
def arriving (authorization : Option String) : Request (AuthRequest Claims) :=
  ⟨none, ⟨authorization, none, ⟨none, none⟩, none⟩⟩

namespace Server

variable (server : Server EK DK)

/-- `AuthGuard`. -/
def authGuard (now : Nat) : Guard (AuthRequest Claims) := fun req =>
  match Auth.authGuard (JwtStrategy.authenticate server.engine (Claims.wire server.uuids)
      server.jwt req.rest now) req.rest with
  | .ok rest => ({ req with rest }, .ok ())
  | .error response => (req, .error ⟨response.status, response.body⟩)

/-- `#[use_guards(AuthGuard, AppAbilityGuard)]`. -/
def guards (now : Nat) : List (Guard (AuthRequest Claims)) :=
  [server.authGuard now, abilityGuard AuthRequest.principal AppAbility.define]

/-- `GraphqlAuthGuard`. -/
def graphqlAuthGuard (now : Nat) : OperationGuard (AuthRequest Claims) :=
  graphqlAbilityBridge (server.authGuard now) (abilityGuard AuthRequest.principal AppAbility.define)

/-- The principal of the token in the header. -/
def caller (now : Nat) (authorization : Option String) : Option Claims :=
  match JwtStrategy.authenticate server.engine (Claims.wire server.uuids) server.jwt
      (arriving authorization).rest now with
  | .ok (.authenticated claims) => some claims
  | _ => none

def usersSurface (seed : Uuid) : Surface userEntity :=
  user.surface (user.service seed) server.parseUuid

def orgsSurface (seed : Uuid) : Surface orgEntity :=
  org.surface (org.service seed) server.parseUuid

end Server

/-! ## The users service -/

/-- The `ActiveModel` of `create_in_org`. -/
def newUser (seed orgId : Uuid) (input : user.CreateInput) : ActiveModel userEntity where
  get c :=
    if c = "id" then .set (.uuid (some seed))
    else if c = "org_id" then .set (.uuid (some orgId))
    else if c = "name" then .set (input.get "name")
    else if c = "email" then .set (input.get "email")
    else .notSet
  typed c v h := by
    split_ifs at h with hid horg hname hemail
    · cases h
      rw [hid]
      rfl
    · cases h
      rw [horg]
      rfl
    · cases h
      rw [hname]
      exact input.variant_get (fun _ => Or.inl) rfl
    · cases h
      rw [hemail]
      exact input.variant_get (fun _ => Or.inl) rfl
    · cases h

/-- `UsersService::create_in_org`, with the text of its error. -/
def Server.createInOrg (server : Server EK DK) (ambient : Ambient) (seed : Uuid)
    (input : user.CreateInput) (orgId : Uuid) (store : Store) :
    Except String (userEntity.Row × Store) := do
  if !input.validate server.rules then .error (server.invalid input)
  else
    (Repo.conn ambient).mapError DbErr.toString
    let (row, users) ← (store.users.insert (store.usersDb server.sql)
      (newUser seed orgId input)).mapError DbErr.toString
    .ok (row, { store with users })

/-! ## REST -/

/-- A request to the users controller, its arguments as extracted; a body is not validated yet. -/
inductive UsersRequest where
  | list
  | get (id : Except PoemError Uuid)
  | create (body : Except PoemError user.CreateInput)
  | update (id : Except PoemError Uuid) (body : Except PoemError user.UpdateInput)
  | delete (id : Except PoemError Uuid)

def UsersRequest.method : UsersRequest → Method
  | list | get _ => .get
  | create _ => .post
  | update _ _ => .patch
  | delete _ => .delete

/-- A request to the orgs controller, whose list is paginated. -/
inductive OrgsRequest where
  | list (query : Except PoemError PageParams)
  | get (id : Except PoemError Uuid)
  | create (body : Except PoemError org.CreateInput)
  | update (id : Except PoemError Uuid) (body : Except PoemError org.UpdateInput)
  | delete (id : Except PoemError Uuid)

def OrgsRequest.method : OrgsRequest → Method
  | list _ | get _ => .get
  | create _ => .post
  | update _ _ => .patch
  | delete _ => .delete

/-- `Ctx<Claims>`. -/
def principalOf (req : Request (AuthRequest Claims)) : Except PoemError Claims :=
  match req.rest.principal with
  | some claims => .ok claims
  | none => .error ⟨500, "missing request context `identity::Claims` — is the guard or " ++
      "interceptor that sets it applied to this route?"⟩

/-- `UsersController::get`, with its `Bind<UsersService, Read>`: there is no `Authorize` parameter,
and so no shaper. -/
def getUser (req : Request (AuthRequest Claims)) (id : Except PoemError Uuid) (store : Store) :
    Except PoemError (Response (Payload userEntity)) := do
  let id ← id
  idV7Check id
  match req.ability with
  | none =>
    .error ⟨500, "missing request `Ability` — is the ability guard applied to this route?"⟩
  | some ability =>
    match ← (CrudService.access ⟨true, some ability⟩ .read id store.users).mapError internal with
    | .found model => .ok ⟨200, .json (.row (shownAs user model))⟩
    | .denied => .error ⟨403, ""⟩
    | .missing => .error ⟨404, ""⟩

namespace Server

variable (server : Server EK DK)

/-- `UsersController::create`, inside its `Authorize` shaper. -/
def createUser (req : Request (AuthRequest Claims)) (seed : Uuid)
    (body : Except PoemError user.CreateInput) (store : Store) :
    Except PoemError (Response (Payload userEntity) × Store) := do
  authorizeRequest req.ability .create userEntity.type
  let auth ← principalOf req
  let input ← Exposed.valid server.rules body
  let (row, store) ← (server.createInOrg ⟨true, req.ability⟩ seed input auth.orgId store).mapError
    fun text => ⟨500, text⟩
  let resp : Response (Payload userEntity) := ⟨200, .json (.row (shownAs user row))⟩
  match req.ability with
  | some ability => .ok (maskResponse (server.usersSurface seed) ability .create resp, store)
  | none => .ok (resp, store)

/-- A hand-written method behind the guards of its controller. -/
def guarded {β : Type} (now : Nat) (authorization : Option String)
    (method : Request (AuthRequest Claims) → Except PoemError (Response β × Store))
    (store : Store) : Except PoemError (Response β) × Store :=
  match runGuards (server.guards now) (arriving authorization) with
  | (_, .error refusal) => (.ok ⟨refusal.status, .text refusal.message⟩, store)
  | (req, .ok ()) =>
    match method req with
    | .ok (resp, store) => (.ok resp, store)
    | .error e => (.error e, store)

/-- A generated method of the users controller. -/
def usersCrud (now : Nat) (seed : Uuid) (authorization : Option String)
    (op : RestOp (server.usersSurface seed)) (store : Store) :
    Except PoemError (Response (Payload userEntity)) × Store :=
  let (result, users) := route (server.usersSurface seed) (store.usersDb server.sql) true
    (server.guards now) (arriving authorization) op store.users
  (result, { store with users })

/-- `UsersController`. -/
def users (now : Nat) (seed : Uuid) (authorization : Option String) (request : UsersRequest)
    (store : Store) : Except PoemError (Response (Payload userEntity)) × Store :=
  match request with
  | .list => server.usersCrud now seed authorization .list store
  | .get id => server.guarded now authorization
      (fun req => (getUser req id store).map fun resp => (resp, store)) store
  | .create body =>
    server.guarded now authorization (fun req => server.createUser req seed body store) store
  | .update id body =>
    server.usersCrud now seed authorization (.update id (Exposed.valid server.rules body)) store
  | .delete id => server.usersCrud now seed authorization (.delete id) store

/-- The operation a request to the orgs controller is. -/
def orgsOp (seed : Uuid) : OrgsRequest → RestOp (server.orgsSurface seed)
  | .list query => .page query
  | .get id => .get id
  | .create body => .create (Exposed.valid server.rules body)
  | .update id body => .update id (Exposed.valid server.rules body)
  | .delete id => .delete id

/-- `OrgsController`. -/
def orgs (now : Nat) (seed : Uuid) (authorization : Option String) (request : OrgsRequest)
    (store : Store) : Except PoemError (Response (Payload orgEntity)) × Store :=
  let (result, orgs) := route (server.orgsSurface seed) (store.orgsDb server.sql) true
    (server.guards now) (arriving authorization) (server.orgsOp seed request) store.orgs
  if store.restricts orgs then (.error (internal Store.restrictError), store)
  else (result, { store with orgs })

/-! ## GraphQL -/

/-- What an operation returns. -/
inductive Data where
  | users (data : GraphqlData userEntity)
  | orgs (data : GraphqlData orgEntity)

end Server

/-- An object of a response. -/
inductive Node where
  | user (item : Item userEntity)
  | org (item : Item orgEntity)

def Server.Data.nodes : Server.Data → List Node
  | .users (.rows items) => items.map .user
  | .users (.row item) => item.toList.map .user
  | .orgs (.rows items) => items.map .org
  | .orgs (.row item) => item.toList.map .org
  | .users (.flag _) | .orgs (.flag _) => []

/-- A query or a mutation of the schema. -/
inductive Operation where
  | users
  | user (id : String)
  | createUser (input : user.CreateInput)
  | updateUser (id : String) (input : user.UpdateInput)
  | deleteUser (id : String)
  | orgs
  | org (id : String)
  | createOrg (input : org.CreateInput)
  | updateOrg (id : String) (input : org.UpdateInput)
  | deleteOrg (id : String)

/-- The fields that go through the loaders. -/
inductive Field where
  | org
  | namesakes
  | users
deriving DecidableEq

/-- The batch that a field ends up in: the state of the database when its query runs, and the keys
it has besides. -/
structure Batch where
  store : Store
  names : List String
  ids : List Uuid

/-- The fields selected on the objects of an operation: each with the batches of its objects, what
is selected below it, and the fields after it. -/
inductive Selection where
  | nothing
  | field (field : Field) (batch : Node → Batch) (below next : Selection)

/-- An operation of a request, with the id that it may draw. -/
structure Selected where
  operation : Operation
  seed : Uuid
  selection : Selection

namespace Server

variable (server : Server EK DK)

/-- A generated operation on users. -/
def usersGraphql (ctx : Option Ability) (ambient : Ambient) (seed : Uuid)
    (op : GraphqlOp (server.usersSurface seed)) (store : Store) :
    Except GraphqlError (Data × Store) := do
  let (data, users) ← resolve (server.usersSurface seed) (store.usersDb server.sql) ctx ambient op
    store.users
  .ok (.users data, { store with users })

/-- A generated operation on organisations. -/
def orgsGraphql (ctx : Option Ability) (ambient : Ambient) (seed : Uuid)
    (op : GraphqlOp (server.orgsSurface seed)) (store : Store) :
    Except GraphqlError (Data × Store) := do
  let (data, orgs) ← resolve (server.orgsSurface seed) (store.orgsDb server.sql) ctx ambient op
    store.orgs
  if store.restricts orgs then .error (graphqlError Store.restrictError)
  else .ok (.orgs data, { store with orgs })

/-- `UsersResolver::user`. -/
def userQuery (ctx : Option Ability) (ambient : Ambient) (seed : Uuid) (id : String)
    (store : Store) : Except GraphqlError (Data × Store) := do
  let row ← Crud.bind (server.usersSurface seed) ctx ambient true .read id store.users
  .ok (.users (.row (row.map (shownAs user))), store)

/-- `UsersResolver::create_user`; the principal is the one in the context. -/
def createUserMutation (ctx : Option Ability) (principal : Option Claims) (ambient : Ambient)
    (seed : Uuid) (input : user.CreateInput) (store : Store) :
    Except GraphqlError (Data × Store) := do
  authorize ctx .create userEntity.type
  match principal with
  | none => .error ⟨"Data `identity::Claims` does not exist.", none⟩
  | some actor =>
    let (row, store) ← (server.createInOrg ambient seed input actor.orgId store).mapError
      fun text => ⟨text, none⟩
    .ok (.users (.row (some (shownAs user row))), store)

/-- An operation, before its fields. -/
def operation (ctx : Option Ability) (principal : Option Claims) (ambient : Ambient) (seed : Uuid)
    (op : Operation) (store : Store) : Except GraphqlError (Data × Store) :=
  match op with
  | .users => server.usersGraphql ctx ambient seed .list store
  | .user id => server.userQuery ctx ambient seed id store
  | .createUser input => server.createUserMutation ctx principal ambient seed input store
  | .updateUser id input => server.usersGraphql ctx ambient seed (.update id input) store
  | .deleteUser id => server.usersGraphql ctx ambient seed (.delete id) store
  | .orgs => server.orgsGraphql ctx ambient seed .list store
  | .org id => server.orgsGraphql ctx ambient seed (.get id) store
  | .createOrg input => server.orgsGraphql ctx ambient seed (.create input) store
  | .updateOrg id input => server.orgsGraphql ctx ambient seed (.update id input) store
  | .deleteOrg id => server.orgsGraphql ctx ambient seed (.delete id) store

end Server

/-- A text of an output object. -/
def fieldText {E : Entity schema} (item : Item E) (name : String) : String :=
  ((jsonField name item.json).bind asString).getD ""

namespace Server

variable (server : Server EK DK)

/-- `UsersResolver::org`, in the batch that its key ends up in. -/
def orgField (ambient : Ambient) (batch : Batch) (parent : Item userEntity) :
    Except GraphqlError (Option (Item orgEntity)) := do
  let id ← (server.parseUuid (fieldText parent "org_id")).mapError fun e => ⟨e, none⟩
  .ok (byId (loaderScope ambient) server.sql batch.store.orgs (id :: batch.ids) id)

/-- `UsersResolver::namesakes`. -/
def namesakesField (ambient : Ambient) (batch : Batch) (parent : Item userEntity) :
    Except GraphqlError (List (Item userEntity)) :=
  let name := fieldText parent "name"
  let sameName := (byName (loaderScope ambient) server.sql batch.store.users
    (name :: batch.names) name).getD []
  .ok (sameName.filter fun u => fieldText u "id" ≠ fieldText parent "id")

/-- `OrgsResolver::users`. -/
def usersField (ambient : Ambient) (batch : Batch) (parent : Item orgEntity) :
    Except GraphqlError (List (Item userEntity)) := do
  let id ← (server.parseUuid (fieldText parent "id")).mapError fun e => ⟨e, none⟩
  .ok ((byOrg (loaderScope ambient) server.sql batch.store.users (id :: batch.ids) id).getD [])

/-- The objects a field adds below one; none when it fails, or is not a field of the object. -/
def children (ambient : Ambient) (field : Field) (batch : Batch) (parent : Node) : List Node :=
  match field, parent with
  | .org, .user item =>
    match server.orgField ambient batch item with
    | .ok found => found.toList.map .org
    | .error _ => []
  | .namesakes, .user item =>
    match server.namesakesField ambient batch item with
    | .ok found => found.map .user
    | .error _ => []
  | .users, .org item =>
    match server.usersField ambient batch item with
    | .ok found => found.map .user
    | .error _ => []
  | _, _ => []

/-- All objects that a selection adds below these. -/
def expand (ambient : Ambient) : Selection → List Node → List Node
  | .nothing, _ => []
  | .field field batch below next, parents =>
    let found := parents.flatMap fun parent => server.children ambient field (batch parent) parent
    found ++ expand ambient below found ++ expand ambient next parents

/-- An operation with its fields: the objects it shows. -/
def runSelected (ctx : Option Ability) (principal : Option Claims) (ambient : Ambient)
    (selected : Selected) (store : Store) : Except GraphqlError (List Node × Store) := do
  let (data, store) ← server.operation ctx principal ambient selected.seed selected.operation store
  .ok (data.nodes ++ server.expand ambient selected.selection data.nodes, store)

/-- The operations of a request, in order: what each shows, and the database at the end. -/
def runBatch (ctx : Option Ability) (principal : Option Claims) (ambient : Ambient) :
    List Selected → Store → List (Except GraphqlError (List Node)) × Store
  | [], store => ([], store)
  | selected :: rest, store =>
    match server.runSelected ctx principal ambient selected store with
    | .ok (nodes, store) =>
      let (results, store) := runBatch ctx principal ambient rest store
      (.ok nodes :: results, store)
    | .error e =>
      let (results, store) := runBatch ctx principal ambient rest store
      (.error e :: results, store)

/-- `/graphql`. -/
def graphql (now : Nat) (authorization : Option String)
    (batch : Except PoemError (List Selected)) (store : Store) :
    Except PoemError (Response (List (Except GraphqlError (List Node)))) × Store :=
  let (req, ability) := scopeOf (some (server.graphqlAuthGuard now)) (arriving authorization)
  match batch with
  | .error e => (.error e, store)
  | .ok batch =>
    let (results, store) :=
      server.runBatch req.ability req.rest.principal ⟨true, ability⟩ batch store
    (.ok ⟨200, .json results⟩, store)

/-! ## The gateway -/

/-- `WsDataContext::capture`, on an upgrade request that the guards let through. -/
def upgrade (now : Nat) (authorization : Option String) : Except Refusal Ambient :=
  match runGuards (server.guards now) (arriving authorization) with
  | (_, .error refusal) => .error refusal
  | (req, .ok ()) => .ok ⟨true, req.ability⟩

/-- `UsersGateway::list`, under what its connection has captured. -/
def gatewayList (captured : Ambient) (store : Store) : List (Item userEntity) :=
  match CrudService.list captured (store.usersDb server.sql) store.users with
  | .ok rows => rows.map (shownAs user)
  | .error _ => []

end Server

end Nestrs.Api
