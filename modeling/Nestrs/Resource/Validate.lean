import Nestrs.Resource.Active
import Nestrs.Crud.Graphql

/-!
# The validation of generated inputs

Model of the `validate(...)` rules that `#[expose]` re-emits on its input types
(`crates/nestrs-resource-macros/src/input.rs`) and of where they are checked on the way to the
database. The `Valid` extractor (`crates/nestrs-http/src/pipe.rs`) runs `ValidationPipe`
(`crates/nestrs-pipes/src/validation.rs`) on the body of a generated REST create or update. The
generated GraphQL mutations hand their argument to the service as it is, and the default `create`
and `update` of `CrudService` check nothing.

`validator` decides what a rule says of a value; it is the parameter `rules`.

Results:
* `route_of_refused_body`: a REST request whose body is refused writes nothing;
* `tableAfter_create_eq_iff`, `tableAfter_update_eq_iff`: exactly when a GraphQL mutation leaves the
  table as it is, whatever the rules say;
* **`validation_enforced_iff`**: a generated write with an input its rules reject writes nothing iff
  it is a REST one, or a GraphQL one that is refused for another reason.
-/

namespace Nestrs.Resource

open Nestrs.Lib Nestrs.Authz Nestrs.Orm Nestrs.Http Nestrs.Crud

/-- What `validator` says of a value, by the body of the rule. -/
abbrev Rules := String → Value → Bool

namespace Exposed

variable {σ : Schema} {E : Entity σ} {x : Exposed E} {included : ResourceField → Bool}

/-- `Validate::validate` as the input struct derives it: every rule of every field. -/
def Input.validate (rules : Rules) (input : x.Input included) : Bool :=
  (x.model.fields.filter included).all fun f =>
    f.validate.all fun body => rules body (input.get f.ident)

/-- `Valid<Json<T>>::from_request`, on what `Json<T>` extracts: `ValidationPipe::transform`, with
its error as `reject` answers it. -/
def valid (rules : Rules) (extracted : Except PoemError (x.Input included)) :
    Except PoemError (x.Input included) := do
  let input ← extracted
  if input.validate rules then .ok input else .error ⟨400, "validation failed"⟩

theorem valid_of_rejected {rules : Rules} {input : x.Input included}
    (h : input.validate rules = false) :
    valid rules (.ok input) = .error ⟨400, "validation failed"⟩ := by
  show (if input.validate rules then _ else _) = _
  rw [h]
  rfl

end Exposed

section Tables

variable {σ : Schema} {E : Entity σ} {t t' : Table E} {db : Backend E}

theorem table_ext (h : t.rows = t'.rows) : t = t' := by
  cases t
  cases t'
  cases h
  rfl

/-- The database takes the row: it makes one of the active model, and its key is new. -/
def Inserts (t : Table E) (db : Backend E) (active : ActiveModel E) : Prop :=
  ∃ row, db.fill active t = .ok row ∧ (E.key row).isSome = true ∧ E.key row ∉ t.rows.map E.key

/-- The database changes the row of the key: the `WHERE` addresses it, and what it is to become is
accepted and something else than it was. -/
def Changes (t : Table E) (db : Backend E) (active : ActiveModel E) (scope : Condition)
    (id : Uuid) : Prop :=
  ∃ r, t.rows.find? (Table.addressed db.sql scope id) = some r ∧
    db.check (active.overwrite r) = none ∧ active.overwrite r ≠ r

theorem exists_insert {active : ActiveModel E} (h : Inserts t db active) :
    ∃ row t', t.insert db active = .ok (row, t') := by
  obtain ⟨row, hfill, hkey, hfresh⟩ := h
  unfold Table.insert
  rw [hfill]
  exact ⟨row, _, dif_pos ⟨hkey, hfresh⟩⟩

theorem inserts_of_insert {active : ActiveModel E} {row : E.Row}
    (h : t.insert db active = .ok (row, t')) : Inserts t db active := by
  unfold Table.insert at h
  rw [bind_eq_ok] at h
  obtain ⟨row', hfill, h⟩ := h
  split at h
  · rename_i hkey
    exact ⟨row', hfill, hkey⟩
  · cases h

/-- A table an update leaves as it is was addressed at no row it changes. -/
theorem changes_of_updateOne {active : ActiveModel E} {scope : Condition} {row : E.Row}
    (h : t.updateOne db active scope = .ok (row, t')) {id : Uuid} (hid : active.key = some id) :
    t' = t ↔ ¬ Changes t db active scope id := by
  obtain ⟨id', hid', hadmits, hdone⟩ := Table.updateOne_eq_ok h
  obtain rfl : id' = id := Option.some.inj (hid'.symm.trans hid)
  rcases hdone with ⟨hnoop, rfl⟩ | ⟨hnoop, hrows⟩
  · refine ⟨fun _ hchanges => ?_, fun _ => rfl⟩
    obtain ⟨r, -, -, hne⟩ := hchanges
    exact hne (ActiveModel.overwrite_of_isNoop hnoop r)
  · unfold Table.Admits at hadmits
    rw [if_neg (fun htrue => absurd (hnoop.symm.trans htrue) (by simp))] at hadmits
    obtain ⟨r, hfound, hcheck⟩ := hadmits
    constructor
    · rintro rfl ⟨s, hs, -, hne⟩
      obtain rfl : r = s := Option.some.inj (hfound.symm.trans hs)
      -- the row is in the table as it was written
      have hsame := List.map_inj_left.mp ((List.map_id _).trans hrows) r
        (List.mem_of_find?_eq_some hfound)
      simp only [id_eq, if_pos (List.find?_some hfound)] at hsame
      exact hne hsame.symm
    · intro hnot
      have hsame : active.overwrite r = r := by
        by_contra hne
        exact hnot ⟨r, hfound, hcheck, hne⟩
      refine table_ext ?_
      rw [hrows]
      refine (List.map_congr_left fun s hs => ?_).trans (List.map_id _)
      split
      · rename_i haddressed
        rw [(Table.addressed_iff_eq hfound hs).mp haddressed]
        exact hsame
      · rfl

end Tables

/-! ## The two surfaces -/

section Surfaces

variable {σ : Schema} {E : Entity σ} {ρ : Type} {surface : Surface E} {db : Backend E}

/-- A REST request that its handler refuses writes nothing, whatever its guards do. -/
theorem route_of_refused_body {executor : Bool} {guards : List (Guard ρ)} {req : Request ρ}
    {op : RestOp surface} {t : Table E}
    (h : ∀ ability ambient, ∃ e, handle surface db ability ambient op t = .error e) :
    (route surface db executor guards req op t).2 = t := by
  unfold route
  split
  · rfl
  · rename_i req' _
    unfold shaped
    cases hability : req'.ability with
    | none =>
      obtain ⟨e, he⟩ := h none ⟨executor, none⟩
      simp only [he]
    | some ability =>
      obtain ⟨e, he⟩ := h (some ability) ⟨executor, some ability⟩
      simp only [he]
      rfl

theorem handle_create_error (ability : Option Ability) (ambient : Ambient) (t : Table E)
    (refusal : PoemError) :
    ∃ e, handle surface db ability ambient (.create (.error refusal)) t = .error e := by
  unfold handle
  cases authorizeRequest ability (RestOp.create (.error refusal) : RestOp surface).action
      E.type with
  | error e => exact ⟨e, rfl⟩
  | ok u => exact ⟨refusal, rfl⟩

theorem handle_update_error (ability : Option Ability) (ambient : Ambient)
    (id : Except PoemError Uuid) (t : Table E) (refusal : PoemError) :
    ∃ e, handle surface db ability ambient (.update id (.error refusal)) t = .error e := by
  unfold handle
  cases authorizeRequest ability (RestOp.update id (.error refusal) : RestOp surface).action
      E.type with
  | error e => exact ⟨e, rfl⟩
  | ok u =>
    cases id with
    | error e => exact ⟨e, rfl⟩
    | ok id => exact ⟨refusal, rfl⟩

variable {ctx : Option Ability} {ambient : Ambient} {t : Table E}

/-- A GraphQL create leaves the table as it is iff the gate or the database turns it down. -/
theorem tableAfter_create_eq_iff {input : surface.service.Create} :
    tableAfter surface db ctx ambient (.create input) t = t ↔
      ¬ ((∃ ability, ctx = some ability ∧ ability.canClass .create E.type = true) ∧
        ambient.executor = true ∧ Inserts t db (surface.service.intoActiveModel input)) := by
  constructor
  · rintro hsame ⟨hgate, hexec, hinserts⟩
    obtain ⟨row, t', hinsert⟩ := exists_insert hinserts
    have hcreate : surface.service.create ambient db input t = .ok (row, t') := by
      unfold CrudService.create
      rw [bind_eq_ok]
      exact ⟨(), Repo.conn_eq_ok.mpr hexec, hinsert⟩
    have hresolve : resolve surface db ctx ambient (.create input) t =
        .ok (.row (some (item surface row)), t') := by
      unfold resolve
      rw [bind_eq_ok]
      refine ⟨(), authorize_eq_ok.mpr hgate, ?_⟩
      rw [bind_eq_ok]
      exact ⟨(row, t'), mapError_eq_ok.mpr hcreate, rfl⟩
    unfold tableAfter at hsame
    simp only [hresolve] at hsame
    subst hsame
    have hlength := congrArg List.length (Table.insert_spec hinsert).2.2
    rw [List.length_append, List.length_singleton] at hlength
    omega
  · intro hnot
    unfold tableAfter
    split
    · rename_i data t' hresolve
      unfold resolve at hresolve
      rw [bind_eq_ok] at hresolve
      obtain ⟨_, hgate, hresolve⟩ := hresolve
      rw [bind_eq_ok] at hresolve
      obtain ⟨⟨row, t''⟩, hcreate, -⟩ := hresolve
      rw [mapError_eq_ok] at hcreate
      unfold CrudService.create at hcreate
      rw [bind_eq_ok] at hcreate
      obtain ⟨_, hconn, hinsert⟩ := hcreate
      exact absurd ⟨authorize_eq_ok.mp hgate, Repo.conn_eq_ok.mp hconn, inserts_of_insert hinsert⟩
        hnot
    · rfl

/-- A GraphQL update leaves the table as it is iff it finds no row the caller may update, or the
database changes none. -/
theorem tableAfter_update_eq_iff {id : String} {input : surface.service.Update} :
    tableAfter surface db ctx ambient (.update id input) t = t ↔
      ¬ ∃ uuid m k, parseId surface id = .ok uuid ∧
        CrudService.access ambient .update uuid t = .ok (.found m) ∧
        (surface.service.applyTo input (Orm.intoActiveModel m)).key = some k ∧
        Changes t db (surface.service.applyTo input (Orm.intoActiveModel m))
          (scopeFor ambient .update E.type) k := by
  constructor
  · rintro hsame ⟨uuid, m, k, hid, haccess, hkey, hchanges⟩
    obtain ⟨hexec, -⟩ := CrudService.access_eq_found.mp haccess
    have hadmits : t.Admits db (surface.service.applyTo input (Orm.intoActiveModel m))
        (scopeFor ambient .update E.type) k := by
      obtain ⟨r, hfound, hcheck, hne⟩ := hchanges
      unfold Table.Admits
      rw [if_neg fun hnoop => hne (ActiveModel.overwrite_of_isNoop hnoop r)]
      exact ⟨r, hfound, hcheck⟩
    obtain ⟨row, t', hupdate⟩ := Table.exists_updateOne hkey hadmits
    have hservice : surface.service.update ambient db m input t = .ok (row, t') := by
      unfold CrudService.update Repo.update
      rw [bind_eq_ok]
      exact ⟨(), Repo.conn_eq_ok.mpr hexec, hupdate⟩
    have hresolve : resolve surface db ctx ambient (.update id input) t =
        .ok (.row (some (item surface row)), t') := by
      unfold resolve bindRow
      rw [bind_eq_ok]
      refine ⟨uuid, hid, ?_⟩
      rw [bind_eq_ok]
      refine ⟨.found m, mapError_eq_ok.mpr haccess, ?_⟩
      rw [bind_eq_ok]
      exact ⟨(row, t'), mapError_eq_ok.mpr hservice, rfl⟩
    unfold tableAfter at hsame
    simp only [hresolve] at hsame
    exact (changes_of_updateOne hupdate hkey).mp hsame hchanges
  · intro hnot
    unfold tableAfter
    split
    · rename_i data t' hresolve
      unfold resolve at hresolve
      obtain ⟨uuid, hid, ⟨-, hout⟩ | ⟨m, haccess, hfound⟩⟩ := bindRow_eq_ok hresolve
      · cases hout
        rfl
      · rw [bind_eq_ok] at hfound
        obtain ⟨⟨row, t''⟩, hservice, hdone⟩ := hfound
        cases hdone
        rw [mapError_eq_ok] at hservice
        unfold CrudService.update Repo.update at hservice
        rw [bind_eq_ok] at hservice
        obtain ⟨-, -, hupdate⟩ := hservice
        obtain ⟨k, hkey, -⟩ := Table.updateOne_eq_ok hupdate
        exact (changes_of_updateOne hupdate hkey).mpr fun hchanges =>
          hnot ⟨uuid, m, k, hid, haccess, hkey, hchanges⟩
    · rfl

end Surfaces

/-! ## Generated writes -/

section Writes

variable {σ : Schema} {E : Entity σ}

/-- A request to a generated operation that takes an input: a REST one with the wiring of its route
and the input its body decodes to, a GraphQL one with the ability in its context and the ambient
state. -/
inductive GeneratedWrite (ρ : Type) (x : ExposedEntity E) where
  | restCreate (executor : Bool) (guards : List (Guard ρ)) (req : Request ρ)
      (input : x.CreateInput)
  | restUpdate (executor : Bool) (guards : List (Guard ρ)) (req : Request ρ)
      (id : Except PoemError Uuid) (input : x.UpdateInput)
  | graphqlCreate (ctx : Option Ability) (ambient : Ambient) (input : x.CreateInput)
  | graphqlUpdate (ctx : Option Ability) (ambient : Ambient) (id : String)
      (input : x.UpdateInput)

namespace GeneratedWrite

variable {ρ : Type} {x : ExposedEntity E}

/-- The rules reject the input. -/
def Rejected (rules : Rules) : GeneratedWrite ρ x → Prop
  | restCreate _ _ _ input => input.validate rules = false
  | restUpdate _ _ _ _ input => input.validate rules = false
  | graphqlCreate _ _ input => input.validate rules = false
  | graphqlUpdate _ _ _ input => input.validate rules = false

def isRest : GeneratedWrite ρ x → Bool
  | restCreate .. | restUpdate .. => true
  | graphqlCreate .. | graphqlUpdate .. => false

variable (seed : Uuid) (parseUuid : String → Except String Uuid) (rules : Rules) (db : Backend E)

/-- The table after the operation. -/
def run (t : Table E) : GeneratedWrite ρ x → Table E
  | restCreate executor guards req input =>
    (route (x.surface (x.service seed) parseUuid) db executor guards req
      (.create (Exposed.valid rules (.ok input))) t).2
  | restUpdate executor guards req id input =>
    (route (x.surface (x.service seed) parseUuid) db executor guards req
      (.update id (Exposed.valid rules (.ok input))) t).2
  | graphqlCreate ctx ambient input =>
    tableAfter (x.surface (x.service seed) parseUuid) db ctx ambient (.create input) t
  | graphqlUpdate ctx ambient id input =>
    tableAfter (x.surface (x.service seed) parseUuid) db ctx ambient (.update id input) t

/-- Something else than the rules keeps a GraphQL write from the database: the gate or the missing
executor, the id, the row that is missing or not the caller's to update, or the database, which
takes no such row or has it as it is. -/
def Refused (t : Table E) : GeneratedWrite ρ x → Prop
  | restCreate .. | restUpdate .. => False
  | graphqlCreate ctx ambient input =>
    ¬ ((∃ ability, ctx = some ability ∧ ability.canClass .create E.type = true) ∧
      ambient.executor = true ∧ Inserts t db (x.intoActiveModel seed input))
  | graphqlUpdate _ ambient id input =>
    ¬ ∃ uuid m k, parseId (x.surface (x.service seed) parseUuid) id = .ok uuid ∧
      CrudService.access ambient .update uuid t = .ok (.found m) ∧
      x.addressedKey uuid input = some k ∧
      Changes t db (x.applyTo input (Orm.intoActiveModel m)) (scopeFor ambient .update E.type) k

/-- **Where validation is enforced.** For every accepted declaration with any rules, every request
to a generated create or update and every input its rules reject: the database stays as it was iff
the operation is a REST one, or a GraphQL one that is refused for another reason. -/
theorem validation_enforced_iff (op : GeneratedWrite ρ x) (t : Table E)
    (hrejected : op.Rejected rules) :
    op.run seed parseUuid rules db t = t ↔
      op.isRest = true ∨ op.Refused seed parseUuid db t := by
  cases op with
  | restCreate executor guards req input =>
    refine ⟨fun _ => Or.inl rfl, fun _ => route_of_refused_body fun ability ambient => ?_⟩
    rw [Exposed.valid_of_rejected hrejected]
    exact handle_create_error ability ambient t _
  | restUpdate executor guards req id input =>
    refine ⟨fun _ => Or.inl rfl, fun _ => route_of_refused_body fun ability ambient => ?_⟩
    rw [Exposed.valid_of_rejected hrejected]
    exact handle_update_error ability ambient id t _
  | graphqlCreate ctx ambient input =>
    refine tableAfter_create_eq_iff.trans ⟨Or.inr, ?_⟩
    rintro (hrest | hrefused)
    · cases hrest
    · exact hrefused
  | graphqlUpdate ctx ambient id input =>
    have hkey : ∀ {uuid : Uuid} {m : E.Row},
        CrudService.access ambient .update uuid t = .ok (.found m) →
        (x.applyTo input (Orm.intoActiveModel m)).key = x.addressedKey uuid input := by
      intro uuid m haccess
      obtain ⟨-, hfound, -⟩ := CrudService.access_eq_found.mp haccess
      exact ExposedEntity.key_applyTo (Table.mem_of_findById hfound).2
    refine tableAfter_update_eq_iff.trans ⟨fun h => Or.inr ?_, ?_⟩
    · rintro ⟨uuid, m, k, hid, haccess, htarget, hchanges⟩
      exact h ⟨uuid, m, k, hid, haccess, (hkey haccess).trans htarget, hchanges⟩
    · rintro (hrest | hrefused)
      · cases hrest
      · rintro ⟨uuid, m, k, hid, haccess, htarget, hchanges⟩
        exact hrefused ⟨uuid, m, k, hid, haccess, (hkey haccess).symm.trans htarget, hchanges⟩

end GeneratedWrite

end Writes

/-! ## A name that must not be empty

The name of the documented user: `#[expose(input(create, update), validate(length(min = 1)))]`. -/

/-- A named thing. -/
def namedEntity : Entity fun _ c => if c = "name" then .string else .uuid where
  type := 0
  tableName := "user"
  columns := ["id", "name"]
  pk := "id"
  uuid := rfl

/-- `String`. -/
def stringType : ColumnType where
  segments := ["String"]
  isColumn := true
  variant := .string
  nullable := false
  serialize
    | .string (some s) => .string s
    | _ => .null
  deserialize
    | .string s => some (.string (some s))
    | _ => none
  round_trip v hvariant hnull := by
    have hnotNull := hnull rfl
    cases v with
    | string v =>
      cases v with
      | none => cases hnotNull
      | some s => rfl
    | _ => cases hvariant

def namedUser : ExposedEntity namedEntity where
  args := [.name "User"]
  ident := "Model"
  items := [⟨"id", uuidType, true, []⟩,
    ⟨"name", stringType, false, [.input ["create", "update"], .validate "length(min = 1)"]⟩]
  model := ⟨"Model", "User", "CreateUserInput", "UpdateUserInput", "UserPage",
    [⟨"id", uuidType, false, false, false, true, []⟩,
      ⟨"name", stringType, false, true, true, false, ["length(min = 1)"]⟩], false, false⟩
  accepted := rfl
  nodup := by
    show ["id", "name"].Nodup
    decide
  columns := rfl
  variants f hf _ := by
    simp only [List.mem_cons, List.not_mem_nil, or_false] at hf
    rcases hf with rfl | rfl
    · rfl
    · rfl
  relations f hf hcolumn := by
    simp only [List.mem_cons, List.not_mem_nil, or_false] at hf
    rcases hf with rfl | rfl
    · cases hcolumn
    · cases hcolumn
  uuidToString := hyphenated
  uuid f hf huuid := by
    simp only [List.mem_cons, List.not_mem_nil, or_false] at hf
    rcases hf with rfl | rfl
    · exact ⟨rfl, rfl, fun u => by simp [uuidType, parseHyphenated_hyphenated]⟩
    · exact absurd huuid (by decide)
  pk f hf hpk := by
    simp only [List.mem_cons, List.not_mem_nil, or_false] at hf
    rcases hf with rfl | rfl
    · rfl
    · cases hpk
  pk_mem := List.mem_cons_self

/-- `validator` on the one rule there is. -/
def lengthRule : Rules
  | "length(min = 1)", .string (some s) => 1 ≤ s.length
  | _, _ => true

/-- `{ name: "" }`. -/
def emptyName : namedUser.CreateInput where
  get _ := .string (some "")
  typed f hf hcreate := by
    simp only [namedUser, List.mem_cons, List.not_mem_nil, or_false] at hf
    rcases hf with rfl | rfl
    · cases hcreate
    · exact ⟨rfl, fun _ => rfl⟩

theorem emptyName_rejected : emptyName.validate lengthRule = false := by decide

/-- A database that stores what is set. -/
def namedDb : Backend namedEntity where
  sql := Sql.strict
  fill active _ := .ok {
    get := fun c => ((active.get c).value).getD (nullOf (if c = "name" then .string else .uuid))
    typed := fun c => by
      cases h : (active.get c).value with
      | none => exact variant_nullOf _
      | some v => exact active.typed c v h }
  check _ := none

theorem nodup_keys_nil : (([] : List namedEntity.Row).map namedEntity.key).Nodup := List.nodup_nil

def nobody : Table namedEntity where
  rows := []
  keyed _ h := absurd h List.not_mem_nil
  distinct := nodup_keys_nil

/-- The generated REST create does not store the empty name. -/
theorem rest_rejects_emptyName :
    (GeneratedWrite.restCreate true [] ⟨usersAdmin.ability, ()⟩ emptyName).run alice parseUuidText
      lengthRule namedDb nobody = nobody :=
  (GeneratedWrite.validation_enforced_iff alice parseUuidText lengthRule namedDb
    (GeneratedWrite.restCreate true [] ⟨usersAdmin.ability, ()⟩ emptyName) nobody
    emptyName_rejected).mpr (Or.inl rfl)

/-- The generated GraphQL create does. -/
theorem graphql_stores_emptyName :
    emptyName.validate lengthRule = false ∧
      ((GeneratedWrite.graphqlCreate usersAdmin.ability usersAdmin emptyName :
        GeneratedWrite Unit namedUser).run alice parseUuidText lengthRule namedDb
          nobody).rows.map (fun r => r.get "name") = [.string (some "")] ∧
      (GeneratedWrite.graphqlCreate usersAdmin.ability usersAdmin emptyName :
        GeneratedWrite Unit namedUser).run alice parseUuidText lengthRule namedDb nobody ≠
          nobody := by
  have hrows : ((GeneratedWrite.graphqlCreate usersAdmin.ability usersAdmin emptyName :
      GeneratedWrite Unit namedUser).run alice parseUuidText lengthRule namedDb
        nobody).rows.map (fun r => r.get "name") = [.string (some "")] := rfl
  refine ⟨emptyName_rejected, hrows, fun hsame => ?_⟩
  rw [hsame] at hrows
  cases hrows

end Nestrs.Resource
