import Nestrs.Api.Entities
import Nestrs.Lib.Batch

/-!
# The data loaders of the api app

Model of the `#[dataloader]` methods (`apps/api/src/users/service.rs`,
`apps/api/src/orgs/service.rs`) and of the ambient state that their batches run under
(`crates/nestrs-graphql/src/loader.rs`, `crates/nestrs-authz-graphql/src/loader.rs`).

A batch is one query for all of its keys, `Repo::scoped(Read)` with an `IN`. It runs on a task of
its own, where the task-locals of the request are gone: a bare `tokio::spawn` has neither executor
nor ability, and `LoaderScope` puts back the pool and the ability of the operation.

Results:
* `byName_eq`, `byOrg_eq`, `byId_eq`: the answer of a loader for a key, whatever else is in the
  batch;
* **`loaders_readable`**: under `LoaderScope` it is made of the rows that the caller may read, and
  of all of these that have the key.
-/

namespace Nestrs.Api

open Nestrs.Lib Nestrs.Authz Nestrs.Orm Nestrs.Http Nestrs.Crud Nestrs.Resource Nestrs.Auth

/-! ## Fields of rows -/

/-- A `String` column. -/
def textOf {e : TypeId} (r : Model schema e) (column : Column) : String :=
  match r.get column with
  | .string (some s) => s
  | _ => ""

/-- A `Uuid` column. -/
def uuidOf {e : TypeId} (r : Model schema e) (column : Column) : Uuid :=
  match r.get column with
  | .uuid (some u) => u
  | _ => 0

/-- The output object of a row. -/
def shownAs {E : Entity schema} (x : ExposedEntity E) (r : E.Row) : Item E := ⟨r, x.output r⟩

/-! ## Batches -/

/-- `Repo::scoped(Action::Read).filter(column.is_in(keys)).all(&Repo::conn()?)`, and no rows when it
fails. -/
def rowsIn {E : Entity schema} (ambient : Ambient) (sql : Sql) (column : Column)
    (keys : List Value) (t : Table E) : List E.Row :=
  match Repo.conn ambient with
  | .ok () => t.select sql ((Condition.all.add (scopeFor ambient .read E.type).expr).add
      (.simpleExpr (.isIn column keys)))
  | .error _ => []

section Loaders

variable (ambient : Ambient) (sql : Sql)

/-- `UsersService::by_name`. -/
def byName (t : Table userEntity) : BatchFn String (List (Item userEntity)) := fun names =>
  buckets (fun r => textOf r "name") (shownAs user)
    (rowsIn ambient sql "name" (names.map fun name => .string (some name)) t) names

/-- `UsersService::by_org`. -/
def byOrg (t : Table userEntity) : BatchFn Uuid (List (Item userEntity)) := fun orgIds =>
  buckets (fun r => uuidOf r "org_id") (shownAs user)
    (rowsIn ambient sql "org_id" (orgIds.map fun id => .uuid (some id)) t) orgIds

/-- `OrgsService::by_id`. -/
def byId (t : Table orgEntity) : BatchFn Uuid (Item orgEntity) := fun ids =>
  collect ((rowsIn ambient sql "id" (ids.map fun id => .uuid (some id)) t).map fun r =>
    (uuidOf r "id", shownAs org r))

end Loaders

/-- `BatchContext`: the ambient state of a batch, by the one that its request had. -/
abbrev BatchContext := Ambient → Ambient

/-- `batch_spawner` without a `BatchContext`. -/
def bareSpawn : BatchContext := fun _ => ⟨false, none⟩

/-- `LoaderScope`. -/
def loaderScope : BatchContext := fun request => ⟨true, request.ability⟩

/-! ## What a batch answers -/

section Answers

variable {E : Entity schema} {ambient : Ambient} {sql : Sql} {t : Table E}

/-- The rows in the scope of a batch. -/
def inScope (ambient : Ambient) (sql : Sql) (t : Table E) : List E.Row :=
  if ambient.executor then t.select sql (scopeFor ambient .read E.type) else []

theorem evalIn_iff {column : Column} {keys : List Value} {r : E.Row}
    (htyped : ∀ v ∈ keys, v.variant = schema E.type column ∧ v.isNull = false) :
    (SimpleExpr.isIn column keys).eval sql r.get = Tri.true ↔ r.get column ∈ keys := by
  rw [SimpleExpr.eval, Tri.any_map_eq_true]
  constructor
  · rintro ⟨v, hv, heq⟩
    have hsame := (sound_sqlEq ((r.typed column).trans (htyped v hv).1.symm)).of_true heq
    rw [of_decide_eq_true hsame]
    exact hv
  · intro h
    exact ⟨r.get column, h, Predicate.sqlEq_self (htyped _ h).2⟩

/-- The query of a batch finds the rows in scope whose key is asked for. -/
theorem rowsIn_eq {column : Column} {keys : List Value}
    (htyped : ∀ v ∈ keys, v.variant = schema E.type column ∧ v.isNull = false) :
    rowsIn ambient sql column keys t =
      (inScope ambient sql t).filter fun r => r.get column ∈ keys := by
  unfold rowsIn inScope Repo.conn
  cases ambient.executor with
  | false => rfl
  | true =>
    rw [if_pos rfl, if_pos rfl, Table.select, Table.select, List.filter_filter]
    refine List.filter_congr fun r _ => ?_
    rw [Bool.eq_iff_iff, Bool.and_eq_true, decide_eq_true_iff, decide_eq_true_iff,
      decide_eq_true_iff, Condition.Keeps, eval_all_add_add, Tri.and_eq_true, eval_simpleExpr,
      evalIn_iff htyped, eval_expr, Condition.Keeps, and_comm]

/-- A row found by a key that is asked for is the same row in every batch that asks for it. -/
theorem filter_rowsIn {K : Type} [DecidableEq K] {column : Column} {keys : List K} {k : K}
    (toValue : K → Value) (keyOf : E.Row → K) (hk : k ∈ keys)
    (htyped : ∀ k, (toValue k).variant = schema E.type column ∧ (toValue k).isNull = false)
    (hkey : ∀ (r : E.Row) k, r.get column = toValue k → keyOf r = k) :
    ((rowsIn ambient sql column (keys.map toValue) t).filter fun r => keyOf r = k) =
      (inScope ambient sql t).filter fun r => r.get column = toValue k := by
  have htyped' : ∀ v ∈ keys.map toValue,
      v.variant = schema E.type column ∧ v.isNull = false := by
    intro v hv
    obtain ⟨k', -, rfl⟩ := List.mem_map.mp hv
    exact htyped k'
  rw [rowsIn_eq htyped', List.filter_filter]
  refine List.filter_congr fun r _ => ?_
  rw [Bool.eq_iff_iff, Bool.and_eq_true, decide_eq_true_iff, decide_eq_true_iff,
    decide_eq_true_iff]
  constructor
  · rintro ⟨hr, hin⟩
    obtain ⟨k', -, hk'⟩ := List.mem_map.mp hin
    rw [← hr, hkey r k' hk'.symm]
    exact hk'.symm
  · intro hr
    exact ⟨hkey r k hr, List.mem_map.mpr ⟨k, hk, hr.symm⟩⟩

end Answers

section Keys

variable {ambient : Ambient} {sql : Sql}

theorem byName_eq {t : Table userEntity} {names : List String} {name : String}
    (h : name ∈ names) : byName ambient sql t names name =
      some (((inScope ambient sql t).filter fun r => r.get "name" = .string (some name)).map
        (shownAs user)) := by
  rw [byName, buckets_eq, if_pos h, filter_rowsIn (fun name => .string (some name)) _ h
    (fun _ => ⟨rfl, rfl⟩)]
  intro r k hk
  rw [textOf, hk]

theorem byOrg_eq {t : Table userEntity} {orgIds : List Uuid} {orgId : Uuid}
    (h : orgId ∈ orgIds) : byOrg ambient sql t orgIds orgId =
      some (((inScope ambient sql t).filter fun r => r.get "org_id" = .uuid (some orgId)).map
        (shownAs user)) := by
  rw [byOrg, buckets_eq, if_pos h, filter_rowsIn (fun id => .uuid (some id)) _ h
    (fun _ => ⟨rfl, rfl⟩)]
  intro r k hk
  rw [uuidOf, hk]

theorem byId_eq {t : Table orgEntity} {ids : List Uuid} {id : Uuid} (h : id ∈ ids) :
    byId ambient sql t ids id =
      (((inScope ambient sql t).filter fun r => r.get "id" = .uuid (some id)).map
        (shownAs org)).getLast? := by
  have hrows : ((rowsIn ambient sql "id" (ids.map fun id => .uuid (some id)) t).filter fun r =>
      uuidOf r "id" = id) = (inScope ambient sql t).filter fun r => r.get "id" = .uuid (some id) :=
    filter_rowsIn (fun id => .uuid (some id)) _ h (fun _ => ⟨rfl, rfl⟩) fun r k hk => by
      rw [uuidOf, hk]
  rw [byId, collect_eq, List.filter_map, List.getLast?_map, List.getLast?_map, ← hrows,
    Option.map_map]
  rfl

theorem transparent_byName (t : Table userEntity) : Transparent (byName ambient sql t) :=
  transparent_of_forall fun _ _ h => byName_eq h

theorem transparent_byOrg (t : Table userEntity) : Transparent (byOrg ambient sql t) :=
  transparent_of_forall fun _ _ h => byOrg_eq h

theorem transparent_byId (t : Table orgEntity) : Transparent (byId ambient sql t) :=
  transparent_of_forall fun _ _ h => byId_eq h

end Keys

/-! ## Loading for a caller -/

section Caller

variable {E : Entity schema} {actor : Claims} {executor : Bool} {sql : Sql}

/-- What the caller may read of a table. -/
def readableBy (actor : Claims) (t : Table E) : List E.Row :=
  t.rows.filter fun r => (abilityOf actor).can .read r

theorem inScope_loaderScope (t : Table E) :
    inScope (loaderScope ⟨executor, some (abilityOf actor)⟩) sql t = readableBy actor t := by
  rw [inScope, loaderScope, if_pos rfl, Table.select, readableBy]
  refine List.filter_congr fun r _ => ?_
  rw [Bool.eq_iff_iff, decide_eq_true_iff, scopeFor, keeps_iff]

theorem inScope_bareSpawn (request : Ambient) (t : Table E) :
    inScope (bareSpawn request) sql t = [] := rfl

/-- **What the loaders answer.** However the keys of a request are batched, each of them gets what
it would have got alone. Under `LoaderScope` these are the rows of the key that the caller may read,
in the order of the table; without a `BatchContext` a batch has no executor, and there are none. -/
theorem loaders_readable (actor : Claims) (executor : Bool) (sql : Sql) (users : Table userEntity)
    (orgs : Table orgEntity) :
    (∀ batches, serve (byName (loaderScope ⟨executor, some (abilityOf actor)⟩) sql users) batches =
      batches.flatten.map fun name => (name, some (((readableBy actor users).filter fun r =>
        r.get "name" = .string (some name)).map (shownAs user)))) ∧
    (∀ batches, serve (byOrg (loaderScope ⟨executor, some (abilityOf actor)⟩) sql users) batches =
      batches.flatten.map fun orgId => (orgId, some (((readableBy actor users).filter fun r =>
        r.get "org_id" = .uuid (some orgId)).map (shownAs user)))) ∧
    (∀ batches, serve (byId (loaderScope ⟨executor, some (abilityOf actor)⟩) sql orgs) batches =
      batches.flatten.map fun id => (id, (((readableBy actor orgs).filter fun r =>
        r.get "id" = .uuid (some id)).map (shownAs org)).getLast?)) ∧
    ∀ request, (∀ batches, serve (byName (bareSpawn request) sql users) batches =
        batches.flatten.map fun name => (name, some [])) ∧
      (∀ batches, serve (byOrg (bareSpawn request) sql users) batches =
        batches.flatten.map fun orgId => (orgId, some [])) ∧
      ∀ batches, serve (byId (bareSpawn request) sql orgs) batches =
        batches.flatten.map fun id => (id, none) := by
  refine ⟨fun batches => ?_, fun batches => ?_, fun batches => ?_, fun request =>
    ⟨fun batches => ?_, fun batches => ?_, fun batches => ?_⟩⟩
  · rw [serve_eq (transparent_byName users)]
    simp only [byName_eq (List.mem_singleton_self _), inScope_loaderScope]
  · rw [serve_eq (transparent_byOrg users)]
    simp only [byOrg_eq (List.mem_singleton_self _), inScope_loaderScope]
  · rw [serve_eq (transparent_byId orgs)]
    simp only [byId_eq (List.mem_singleton_self _), inScope_loaderScope]
  · rw [serve_eq (transparent_byName users)]
    simp only [byName_eq (List.mem_singleton_self _), inScope_bareSpawn, List.filter_nil,
      List.map_nil]
  · rw [serve_eq (transparent_byOrg users)]
    simp only [byOrg_eq (List.mem_singleton_self _), inScope_bareSpawn, List.filter_nil,
      List.map_nil]
  · rw [serve_eq (transparent_byId orgs)]
    simp only [byId_eq (List.mem_singleton_self _), inScope_bareSpawn, List.filter_nil,
      List.map_nil, List.getLast?_nil]

end Caller

end Nestrs.Api
