import Nestrs.Authz.Ability
import Nestrs.Orm.Table

/-!
# The repository and the entity service

Model of `crates/nestrs-orm/src/repo.rs`, `page.rs` and the default methods of `CrudService`
(`service.rs`), with the task-locals they read (`executor.rs`, `crates/nestrs-authz/src/context.rs`)
as an `Ambient` argument. A call that returns an error has written nothing, so a call that may
write returns the table after it only on `Ok`.

`scopeFor` with no ambient ability is the condition that is always true: such a call is unscoped.
`access` loads by id without a scope and checks the instance in memory; with no ambient ability it
denies. `create` neither scopes nor checks.

Results:
* `access_eq_found`: what a by-id load that is found has checked;
* `update_spec`, `delete_spec`, `create_spec`: what a write that succeeds has written;
* `list_eq_ok`, `mem_page`: the rows a listing returns are in the ambient scope.
-/

namespace Nestrs.Orm

open Nestrs.Lib Nestrs.Authz

/-- The task-locals of a request: whether an executor is installed, and the ability. -/
structure Ambient where
  executor : Bool
  ability : Option Ability

variable {σ : Schema} {E : Entity σ}

/-- `scope_for`. -/
def scopeFor (ambient : Ambient) (action : Action) (subject : TypeId) : Condition :=
  match ambient.ability with
  | some ability => ability.conditionFor action subject
  | none => Condition.all

/-- `Page`. -/
structure Page (M : Type) where
  items : List M
  nextCursor : Option Uuid
  hasMore : Bool

namespace Repo

/-- `Repo::conn`. -/
def conn (ambient : Ambient) : Except DbErr Unit :=
  if ambient.executor then .ok ()
  else .error (.custom ("no ambient database executor — a Repo query must run inside the " ++
    "request scope installed by nestrs-orm's DbContext interceptor"))

/-- `Repo::all`. -/
def all (ambient : Ambient) (db : Backend E) (t : Table E) : Except DbErr (List E.Row) := do
  conn ambient
  .ok (t.select db.sql (scopeFor ambient .read E.type))

/-- `first.clamp(1, 100)`. -/
def clamp (first : Nat) : Nat := max 1 (min first 100)

/-- The key order of the cursor; every row of a table has a key. -/
def keyLe (r s : E.Row) : Bool := (E.key r).getD 0 ≤ (E.key s).getD 0

/-- `Repo::page`: the rows after the cursor, ascending by key, one more than asked for. -/
def page (ambient : Ambient) (db : Backend E) (first : Nat) (after : Option Uuid) (t : Table E) :
    Except DbErr (Page E.Row) := do
  conn ambient
  let limit := clamp first
  let beyond := fun r => match after with
    | some id => decide (id < (E.key r).getD 0)
    | none => true
  let found := (((t.select db.sql (scopeFor ambient .read E.type)).filter beyond).mergeSort
    keyLe).take (limit + 1)
  let hasMore := decide (limit < found.length)
  let items := found.take limit
  .ok { items, nextCursor := if hasMore then items.getLast?.bind E.key else none, hasMore }

/-- `Repo::update`. -/
def update (ambient : Ambient) (db : Backend E) (active : ActiveModel E) (t : Table E) :
    Except DbErr (E.Row × Table E) := do
  conn ambient
  t.updateOne db active (scopeFor ambient .update E.type)

/-- `Repo::delete`. -/
def delete (ambient : Ambient) (db : Backend E) (model : E.Row) (t : Table E) :
    Except DbErr (Nat × Table E) := do
  conn ambient
  t.deleteOne db model (scopeFor ambient .delete E.type)

theorem conn_eq_ok {ambient : Ambient} {u : Unit} :
    conn ambient = .ok u ↔ ambient.executor = true := by
  unfold conn
  split
  · rename_i h
    exact ⟨fun _ => h, fun _ => rfl⟩
  · rename_i h
    exact ⟨nofun, fun hexec => absurd hexec h⟩

end Repo

/-- `Access`. -/
inductive Access (M : Type) where
  | found (model : M)
  | denied
  | missing

/-- A `CrudService` with the default methods: its input types with their conversions
(`CreateModel`, `UpdateModel`). -/
structure CrudService {σ : Schema} (E : Entity σ) where
  Create : Type
  Update : Type
  intoActiveModel : Create → ActiveModel E
  applyTo : Update → ActiveModel E → ActiveModel E

namespace CrudService

variable (service : CrudService E) (ambient : Ambient) (db : Backend E)

/-- `CrudService::list`. -/
def list (t : Table E) : Except DbErr (List E.Row) := Repo.all ambient db t

/-- `CrudService::page`. -/
def page (first : Nat) (after : Option Uuid) (t : Table E) : Except DbErr (Page E.Row) :=
  Repo.page ambient db first after t

/-- `CrudService::access`. -/
def access (action : Action) (id : Uuid) (t : Table E) : Except DbErr (Access E.Row) := do
  Repo.conn ambient
  match t.findById id with
  | none => .ok .missing
  | some model =>
    let allowed := match ambient.ability with
      | some ability => ability.can action model
      | none => false
    if allowed then .ok (.found model) else .ok .denied

/-- `CrudService::create`. -/
def create (input : service.Create) (t : Table E) : Except DbErr (E.Row × Table E) := do
  Repo.conn ambient
  t.insert db (service.intoActiveModel input)

/-- `CrudService::update`. -/
def update (model : E.Row) (input : service.Update) (t : Table E) :
    Except DbErr (E.Row × Table E) :=
  Repo.update ambient db (service.applyTo input (Orm.intoActiveModel model)) t

/-- `CrudService::delete`. -/
def delete (model : E.Row) (t : Table E) : Except DbErr (Table E) := do
  let (rowsAffected, t) ← Repo.delete ambient db model t
  if rowsAffected = 0 then
    .error (.recordNotFound
      (E.tableName ++ " row not found or outside the caller's scope"))
  else .ok t

/-! ## What a call has done -/

variable {service ambient db} {t t' : Table E}

theorem access_eq_found {action : Action} {id : Uuid} {model : E.Row} :
    access ambient action id t = .ok (.found model) ↔
      ambient.executor = true ∧ t.findById id = some model ∧
        ∃ ability, ambient.ability = some ability ∧ ability.can action model = true := by
  unfold access
  rw [bind_eq_ok]
  constructor
  · rintro ⟨u, hconn, h⟩
    refine ⟨Repo.conn_eq_ok.mp hconn, ?_⟩
    split at h
    · exact nomatch h
    · rename_i found hfind
      cases ha : ambient.ability with
      | none =>
        rw [ha] at h
        exact nomatch h
      | some ability =>
        rw [ha] at h
        by_cases hcan : ability.can action found = true
        · simp only [hcan, if_true] at h
          cases h
          exact ⟨hfind, ability, rfl, hcan⟩
        · simp only [hcan, Bool.false_eq_true, if_false] at h
          exact nomatch h
  · rintro ⟨hexec, hfind, ability, hability, hcan⟩
    refine ⟨(), Repo.conn_eq_ok.mpr hexec, ?_⟩
    rw [hfind, hability]
    simp only [hcan, if_true]

theorem access_eq_missing {action : Action} {id : Uuid}
    (h : access ambient action id t = .ok .missing) : t.findById id = none := by
  unfold access at h
  rw [bind_eq_ok] at h
  obtain ⟨-, -, h⟩ := h
  cases hfind : t.findById id with
  | none => rfl
  | some found =>
    rw [hfind] at h
    simp only at h
    split_ifs at h
    · exact nomatch h
    · exact nomatch h

theorem create_spec {input : service.Create} {row : E.Row}
    (h : service.create ambient db input t = .ok (row, t')) :
    db.fill (service.intoActiveModel input) t = .ok row ∧ E.key row ∉ t.rows.map E.key ∧
      t'.rows = t.rows ++ [row] := by
  unfold create at h
  rw [bind_eq_ok] at h
  obtain ⟨-, -, h⟩ := h
  exact Table.insert_spec h

/-- An update sets no column, or writes the rows its `WHERE` addresses. -/
theorem update_spec {model row : E.Row} {input : service.Update}
    (h : service.update ambient db model input t = .ok (row, t')) :
    ((service.applyTo input (Orm.intoActiveModel model)).isNoop = true ∧ t' = t) ∨
      ∃ id, (service.applyTo input (Orm.intoActiveModel model)).key = some id ∧
        t'.rows = t.rows.map fun s =>
          if Table.addressed db.sql (scopeFor ambient .update E.type) id s
            then (service.applyTo input (Orm.intoActiveModel model)).overwrite s else s := by
  unfold update Repo.update at h
  rw [bind_eq_ok] at h
  obtain ⟨-, -, h⟩ := h
  exact Table.updateOne_spec h

/-- A delete removes the rows with the model's key that the scope keeps. -/
theorem delete_spec {model : E.Row} (h : delete ambient db model t = .ok t') :
    ∃ id, E.key model = some id ∧ t'.rows = t.rows.filter fun s =>
      !Table.addressed db.sql (scopeFor ambient .delete E.type) id s := by
  unfold delete Repo.delete at h
  rw [bind_eq_ok] at h
  obtain ⟨⟨n, t₁⟩, hdelete, h⟩ := h
  rw [bind_eq_ok] at hdelete
  obtain ⟨-, -, hdelete⟩ := hdelete
  simp only at h
  split at h
  · exact nomatch h
  · cases h
    exact Table.deleteOne_spec hdelete

/-- A listing needs an executor and returns the rows in scope. -/
theorem list_eq_ok {rows : List E.Row} :
    list ambient db t = .ok rows ↔
      ambient.executor = true ∧ rows = t.select db.sql (scopeFor ambient .read E.type) := by
  unfold list Repo.all
  rw [bind_eq_ok]
  constructor
  · rintro ⟨u, hconn, h⟩
    cases h
    exact ⟨Repo.conn_eq_ok.mp hconn, rfl⟩
  · rintro ⟨hexec, rfl⟩
    exact ⟨(), Repo.conn_eq_ok.mpr hexec, rfl⟩

theorem mem_page {first : Nat} {after : Option Uuid} {p : Page E.Row}
    (h : page ambient db first after t = .ok p) {r : E.Row} (hr : r ∈ p.items) :
    ambient.executor = true ∧ r ∈ t.select db.sql (scopeFor ambient .read E.type) := by
  unfold page Repo.page at h
  rw [bind_eq_ok] at h
  obtain ⟨u, hconn, h⟩ := h
  cases h
  have hsort := List.mem_of_mem_take (List.mem_of_mem_take hr)
  rw [List.mem_mergeSort] at hsort
  exact ⟨Repo.conn_eq_ok.mp hconn, List.mem_of_mem_filter hsort⟩

end CrudService

/-! ## Authorized writes -/

/-- The write an operation asks for. -/
inductive Write (service : CrudService E) where
  | none
  | create (input : service.Create)
  | update (id : Uuid) (input : service.Update)
  | delete (id : Uuid)

/-- What an operation that succeeds has done to the table: a create inserts the row of its input, a
write by id finds no row, or loads one the ambient ability may act on and writes in its scope. -/
inductive Wrote (service : CrudService E) (ambient : Ambient) (db : Backend E) (t t' : Table E) :
    Write service → Prop
  | nothing (h : t' = t) : Wrote service ambient db t t' .none
  | created {input : service.Create} (row : E.Row)
      (h : service.create ambient db input t = .ok (row, t')) :
      Wrote service ambient db t t' (.create input)
  | noUpdate {id : Uuid} {input : service.Update} (hmissing : t.findById id = none) (h : t' = t) :
      Wrote service ambient db t t' (.update id input)
  | updated {id : Uuid} {input : service.Update} (model row : E.Row)
      (hfound : CrudService.access ambient .update id t = .ok (.found model))
      (h : service.update ambient db model input t = .ok (row, t')) :
      Wrote service ambient db t t' (.update id input)
  | noDelete {id : Uuid} (h : t' = t) : Wrote service ambient db t t' (.delete id)
  | deleted {id : Uuid} (model : E.Row)
      (hfound : CrudService.access ambient .delete id t = .ok (.found model))
      (h : CrudService.delete ambient db model t = .ok t') :
      Wrote service ambient db t t' (.delete id)

end Nestrs.Orm
