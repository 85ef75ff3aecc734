import Nestrs.Lib.Except
import Nestrs.Orm.Condition
import Mathlib.Data.List.Nodup

/-!
# Tables and statements

The part of SeaORM the data layer runs its statements with, over one table. It is not in the
repository; each definition follows the documented behaviour:

* `ActiveModel` is a row under construction, each column set, unchanged or not set;
* `insert` stores the row the database makes of an active model, with its defaults, unless it
  refuses it (`Backend.fill`) or the key is taken;
* `updateOne` is `Update::one(active).validate()?.filter(scope).exec(..)`: the columns that are set
  go to the rows with the active model's key **and** the scope; with none set nothing is written and
  the row is read back; with no row matched the call is `RecordNotUpdated`;
* `deleteOne` is `Delete::one(model).validate()?.filter(scope).exec(..)`, with the rows affected;
* a `SELECT` with a condition keeps the rows on which it is true.

A `Table` carries the constraint its primary key is: every row has one, and no two the same.

Results:
* `insert_spec`, `updateOne_spec`, `deleteOne_spec`: what a statement that succeeds has done.
-/

namespace Nestrs.Orm

open Nestrs.Lib

/-- `sea_orm::DbErr`, the errors met here. -/
inductive DbErr where
  | custom (message : String)
  | recordNotFound (message : String)
  | recordNotUpdated
  | primaryKeyNotSet
  | exec (message : String)
deriving DecidableEq, Repr

/-- `DbErr`'s `Display`. -/
def DbErr.toString : DbErr → String
  | custom message => "Custom Error: " ++ message
  | recordNotFound message => "RecordNotFound Error: " ++ message
  | recordNotUpdated => "None of the records are updated"
  | primaryKeyNotSet => "Primary key not set"
  | exec message => "Execution Error: " ++ message

/-- An entity whose primary key is one `Uuid` column. -/
structure Entity (σ : Schema) where
  type : TypeId
  /-- `EntityName::table_name`. -/
  tableName : String
  columns : List Column
  pk : Column
  uuid : σ type pk = .uuid

/-- A row of the entity (`E::Model`). -/
abbrev Entity.Row {σ : Schema} (E : Entity σ) : Type := Model σ E.type

/-- The primary key of a row. -/
def Entity.key {σ : Schema} (E : Entity σ) (r : E.Row) : Option Uuid :=
  match r.get E.pk with
  | .uuid v => v
  | _ => none

/-- `sea_orm::ActiveValue`. -/
inductive ActiveValue where
  | set (v : Value)
  | unchanged (v : Value)
  | notSet
deriving DecidableEq, Repr

/-- The value, if there is one. -/
def ActiveValue.value : ActiveValue → Option Value
  | set v => some v
  | unchanged v => some v
  | notSet => none

/-- `E::ActiveModel`; the values it holds have their columns' variants. -/
structure ActiveModel {σ : Schema} (E : Entity σ) where
  get : Column → ActiveValue
  typed : ∀ c v, (get c).value = some v → v.variant = σ E.type c

/-- A table: rows with distinct primary keys. -/
structure Table {σ : Schema} (E : Entity σ) where
  rows : List E.Row
  keyed : ∀ r ∈ rows, (E.key r).isSome = true
  distinct : (rows.map E.key).Nodup

variable {σ : Schema} {E : Entity σ}

/-- `IntoActiveModel` of a loaded row. -/
def intoActiveModel (r : E.Row) : ActiveModel E where
  get c := .unchanged (r.get c)
  typed c v h := by
    cases h
    exact r.typed c

namespace ActiveModel

/-- The primary key the model carries. -/
def key (active : ActiveModel E) : Option Uuid :=
  match (active.get E.pk).value with
  | some (.uuid v) => v
  | _ => none

/-- The columns an `UPDATE` sets: those set, the primary key apart. -/
def sets (active : ActiveModel E) (c : Column) : Option Value :=
  if c ∈ E.columns ∧ c ≠ E.pk then
    match active.get c with
    | .set v => some v
    | _ => none
  else none

/-- No column is set. -/
def isNoop (active : ActiveModel E) : Bool := E.columns.all fun c => (active.sets c).isNone

/-- The row with the columns that are set. -/
def overwrite (active : ActiveModel E) (r : E.Row) : E.Row where
  get c := (active.sets c).getD (r.get c)
  typed c := by
    cases h : active.sets c with
    | none => exact r.typed c
    | some v =>
      refine active.typed c v ?_
      unfold sets at h
      split at h
      · split at h
        · rename_i hget
          cases h
          rw [hget]
          rfl
        · exact nomatch h
      · exact nomatch h

/-- Setting no column changes no row. -/
theorem overwrite_of_isNoop {active : ActiveModel E} (h : active.isNoop = true) (r : E.Row) :
    active.overwrite r = r := by
  refine Model.ext (funext fun c => ?_)
  have hnone : active.sets c = none := by
    by_cases hc : c ∈ E.columns
    · exact Option.isNone_iff_eq_none.mp (List.all_eq_true.mp h c hc)
    · unfold sets
      rw [if_neg fun hand => hc hand.1]
  show (active.sets c).getD (r.get c) = r.get c
  rw [hnone]
  rfl

theorem key_overwrite (active : ActiveModel E) (r : E.Row) :
    E.key (active.overwrite r) = E.key r := by
  unfold Entity.key overwrite sets
  simp

end ActiveModel

/-- What the database decides: how it compares, the row it makes of an `INSERT` (or why not), and
the rows an `UPDATE` may not leave. -/
structure Backend {σ : Schema} (E : Entity σ) where
  sql : Sql
  fill : ActiveModel E → Table E → Except DbErr E.Row
  check : E.Row → Option DbErr

namespace Table

/-- The table of one row. -/
def single (r : E.Row) (h : (E.key r).isSome = true) : Table E where
  rows := [r]
  keyed s hs := by
    rw [List.mem_singleton.mp hs]
    exact h
  distinct := List.nodup_singleton _

/-- `E::find_by_id(id).one(..)`. -/
def findById (t : Table E) (id : Uuid) : Option E.Row := t.rows.find? fun r => E.key r = some id

/-- `E::find().filter(scope).all(..)`. -/
def select (t : Table E) (sql : Sql) (scope : Condition) : List E.Row :=
  t.rows.filter fun r => scope.Keeps sql r.get

/-- `active.insert(..)`. -/
def insert (t : Table E) (db : Backend E) (active : ActiveModel E) :
    Except DbErr (E.Row × Table E) := do
  let row ← db.fill active t
  if h : (E.key row).isSome = true ∧ E.key row ∉ t.rows.map E.key then
    .ok (row, {
      rows := t.rows ++ [row]
      keyed := by
        intro r hr
        rcases List.mem_append.mp hr with hr | hr
        · exact t.keyed r hr
        · rw [List.mem_singleton.mp hr]
          exact h.1
      distinct := by
        rw [List.map_append, List.map_singleton, List.nodup_append]
        refine ⟨t.distinct, List.nodup_singleton _, fun k hk k' hk' heq => h.2 ?_⟩
        rw [← List.mem_singleton.mp hk', ← heq]
        exact hk })
  else .error (.exec "duplicate key value violates unique constraint")

/-- The row has the key and passes the filter: the `WHERE` of a scoped write. -/
def addressed (sql : Sql) (scope : Condition) (id : Uuid) (r : E.Row) : Bool :=
  E.key r = some id && scope.Keeps sql r.get

/-- `Update::one(active).validate()?.filter(scope).exec(..)`. -/
def updateOne (t : Table E) (db : Backend E) (active : ActiveModel E) (scope : Condition) :
    Except DbErr (E.Row × Table E) :=
  match active.key with
  | none => .error .primaryKeyNotSet
  | some id =>
    if active.isNoop then
      match t.findById id with
      | some r => .ok (r, t)
      | none => .error (.recordNotFound "Failed to find updated item")
    else match t.rows.find? (addressed db.sql scope id) with
      | none => .error .recordNotUpdated
      | some r => match db.check (active.overwrite r) with
        | some e => .error e
        | none => .ok (active.overwrite r, {
            rows := t.rows.map fun s =>
              if addressed db.sql scope id s then active.overwrite s else s
            keyed := by
              intro s hs
              obtain ⟨s₀, hs₀, rfl⟩ := List.mem_map.mp hs
              split
              · rw [active.key_overwrite]
                exact t.keyed s₀ hs₀
              · exact t.keyed s₀ hs₀
            distinct := by
              rw [List.map_map, List.map_congr_left (fun s _ => ?_)]
              · exact t.distinct
              · simp only [Function.comp_apply]
                split
                · exact active.key_overwrite s
                · rfl })

/-- `Delete::one(model).validate()?.filter(scope).exec(..)`: the rows affected. -/
def deleteOne (t : Table E) (db : Backend E) (model : E.Row) (scope : Condition) :
    Except DbErr (Nat × Table E) :=
  match E.key model with
  | none => .error .primaryKeyNotSet
  | some id => .ok ((t.rows.filter (addressed db.sql scope id)).length, {
      rows := t.rows.filter fun s => !addressed db.sql scope id s
      keyed := fun s hs => t.keyed s (List.mem_of_mem_filter hs)
      distinct := t.distinct.sublist (List.filter_sublist.map _) })

/-! ## What a statement has done -/

variable {t t' : Table E} {db : Backend E}

theorem mem_select {sql : Sql} {scope : Condition} {r : E.Row} :
    r ∈ t.select sql scope ↔ r ∈ t.rows ∧ scope.Keeps sql r.get := by
  simp [select]

theorem mem_of_findById {id : Uuid} {r : E.Row} (h : t.findById id = some r) :
    r ∈ t.rows ∧ E.key r = some id :=
  ⟨List.mem_of_find?_eq_some h, by simpa using List.find?_some h⟩

theorem select_single {r : E.Row} (hkey : (E.key r).isSome = true) {sql : Sql}
    {scope : Condition} (hkeeps : scope.Keeps sql r.get) :
    (single r hkey).select sql scope = [r] := by
  unfold select single
  simp [hkeeps]

theorem findById_single {r : E.Row} (hkey : (E.key r).isSome = true) {id : Uuid}
    (hid : E.key r = some id) : (single r hkey).findById id = some r := by
  unfold findById single
  simp [hid]

/-- Rows of one key are one row. -/
theorem eq_of_key {r s : E.Row} (hr : r ∈ t.rows) (hs : s ∈ t.rows) (h : E.key r = E.key s) :
    r = s := List.inj_on_of_nodup_map t.distinct hr hs h

theorem key_of_addressed {sql : Sql} {scope : Condition} {id : Uuid} {r : E.Row}
    (h : addressed sql scope id r = true) : E.key r = some id := by
  unfold addressed at h
  simp only [Bool.and_eq_true, decide_eq_true_eq] at h
  exact h.1

/-- The `WHERE` that addresses a row addresses no other. -/
theorem addressed_iff_eq {sql : Sql} {scope : Condition} {id : Uuid} {r s : E.Row}
    (hfound : t.rows.find? (addressed sql scope id) = some r) (hs : s ∈ t.rows) :
    addressed sql scope id s = true ↔ s = r := by
  have hr := List.find?_some hfound
  constructor
  · intro haddressed
    exact eq_of_key hs (List.mem_of_find?_eq_some hfound)
      ((key_of_addressed haddressed).trans (key_of_addressed hr).symm)
  · rintro rfl
    exact hr

theorem insert_spec {active : ActiveModel E} {row : E.Row}
    (h : t.insert db active = .ok (row, t')) :
    db.fill active t = .ok row ∧ E.key row ∉ t.rows.map E.key ∧ t'.rows = t.rows ++ [row] := by
  unfold insert at h
  rw [bind_eq_ok] at h
  obtain ⟨row', hfill, h⟩ := h
  split at h
  · rename_i hkey
    cases h
    exact ⟨hfill, hkey.2, rfl⟩
  · exact nomatch h

/-- An update of the row with the key goes through: with no column set there is such a row, else the
`WHERE` addresses one and the database accepts what it is to become. -/
def Admits (t : Table E) (db : Backend E) (active : ActiveModel E) (scope : Condition)
    (id : Uuid) : Prop :=
  if active.isNoop then (t.findById id).isSome = true
  else ∃ r, t.rows.find? (addressed db.sql scope id) = some r ∧
    db.check (active.overwrite r) = none

theorem updateOne_eq_ok {active : ActiveModel E} {scope : Condition} {row : E.Row}
    (h : t.updateOne db active scope = .ok (row, t')) :
    ∃ id, active.key = some id ∧ t.Admits db active scope id ∧
      ((active.isNoop = true ∧ t' = t) ∨ (active.isNoop = false ∧
        t'.rows = t.rows.map fun s =>
          if addressed db.sql scope id s then active.overwrite s else s)) := by
  unfold updateOne at h
  split at h
  · cases h
  · rename_i id hid
    refine ⟨id, hid, ?_⟩
    unfold Admits
    split at h
    · rename_i hnoop
      rw [if_pos hnoop]
      split at h
      · rename_i r hfound
        cases h
        exact ⟨by rw [hfound]; rfl, .inl ⟨hnoop, rfl⟩⟩
      · cases h
    · rename_i hnoop
      rw [if_neg hnoop]
      split at h
      · cases h
      · rename_i r hfound
        split at h
        · cases h
        · rename_i hcheck
          cases h
          exact ⟨⟨r, hfound, hcheck⟩, .inr ⟨Bool.eq_false_iff.mpr hnoop, rfl⟩⟩

/-- An update that goes through succeeds. -/
theorem exists_updateOne {active : ActiveModel E} {scope : Condition} {id : Uuid}
    (hid : active.key = some id) (h : t.Admits db active scope id) :
    ∃ row t', t.updateOne db active scope = .ok (row, t') := by
  unfold updateOne
  unfold Admits at h
  rw [hid]
  split at h
  · rename_i hnoop
    obtain ⟨r, hfound⟩ := Option.isSome_iff_exists.mp h
    exact ⟨r, t, by simp only [hnoop, hfound, if_true]⟩
  · rename_i hnoop
    obtain ⟨r, hfound, hcheck⟩ := h
    simp only [if_neg hnoop, hfound, hcheck]
    exact ⟨_, _, rfl⟩

/-- A scoped update that succeeds sets no column, or has written the rows its `WHERE` addresses. -/
theorem updateOne_spec {active : ActiveModel E} {scope : Condition} {row : E.Row}
    (h : t.updateOne db active scope = .ok (row, t')) :
    (active.isNoop = true ∧ t' = t) ∨ ∃ id, active.key = some id ∧
      t'.rows = t.rows.map fun s =>
        if addressed db.sql scope id s then active.overwrite s else s := by
  obtain ⟨id, hid, -, hnoop | ⟨-, hrows⟩⟩ := updateOne_eq_ok h
  · exact Or.inl hnoop
  · exact Or.inr ⟨id, hid, hrows⟩

theorem deleteOne_spec {model : E.Row} {scope : Condition} {n : Nat}
    (h : t.deleteOne db model scope = .ok (n, t')) :
    ∃ id, E.key model = some id ∧
      t'.rows = t.rows.filter fun s => !addressed db.sql scope id s := by
  unfold deleteOne at h
  split at h
  · exact nomatch h
  · rename_i id hid
    cases h
    exact ⟨id, hid, rfl⟩

end Table

end Nestrs.Orm
