import Nestrs.Crud.Reads
import Mathlib.Algebra.Group.Nat.Defs

/-!
# Exposed entities and the REST mask

Model of `#[expose]` (`crates/nestrs-resource-macros/src/attr.rs` and `dto.rs`): the flags of each
column, as `parse` reads them, and `From<&Model>` of the output object it emits, which leaves out
the skipped columns and renders a `Uuid` as text. The REST shaper parses that output back as the
model (`mask_response`), with the `Deserialize` the entity derives: a column that is not there is an
error, unless its type is an `Option`, which then reads as `None`.

The types of columns come from other crates. Each is its path as written, the variant of the values
it converts to, whether it is an `Option`, and its serde implementations, which round-trip; the text
of a `Uuid` is one that its `Deserialize` reads back. A struct may also have relation fields
(`HasOne`, `HasMany`), which the ORM macro takes out of the model.

Results:
* `mem_parse`: the columns of an accepted declaration are those of the struct, and a skipped one is
  in no input;
* `readColumn_output`: what each column of an output is read back as;
* **`exposed_survives_iff`**: a generated read answers with success and its rows are parsed back as
  they were iff every skipped column of these rows is an `Option` and `None`.
-/

namespace Nestrs.Resource

open Nestrs.Lib Nestrs.Authz Nestrs.Orm Nestrs.Http Nestrs.Crud

/-! ## The declaration -/

/-- The type of a field. -/
structure ColumnType where
  /-- The segments of its path. -/
  segments : List String
  /-- It is a column's, not a relation's. -/
  isColumn : Bool
  variant : Variant
  /-- It is an `Option`. -/
  nullable : Bool
  serialize : Value → Json
  deserialize : Json → Option Value
  round_trip : ∀ v : Value, v.variant = variant → (nullable = false → v.isNull = false) →
    deserialize (serialize v) = some v

/-- The value is one of the type. -/
def ColumnType.Holds (ty : ColumnType) (v : Value) : Prop :=
  v.variant = ty.variant ∧ (ty.nullable = false → v.isNull = false)

/-- `is_uuid`. -/
def ColumnType.isUuid (ty : ColumnType) : Bool := ty.segments.getLast? = some "Uuid"

/-- An argument of `#[expose(...)]` on the struct. -/
inductive ExposeArg where
  | name (value : String)
  | complex
  | paginate
  | other

/-- An argument of `#[expose(...)]` on a field. -/
inductive FieldArg where
  | skip
  | input (kinds : List String)
  | validate (body : String)
  | other

/-- A field of the struct: whether its `#[sea_orm(...)]` says `primary_key`, and its
`#[expose(...)]` arguments. -/
structure ItemField where
  ident : String
  ty : ColumnType
  primaryKey : Bool
  expose : List FieldArg

inductive Fields where
  | named (fields : List ItemField)
  | unnamed

structure ItemStruct where
  ident : String
  fields : Fields

/-- `ResourceField`. -/
structure ResourceField where
  ident : String
  ty : ColumnType
  skip : Bool
  inCreate : Bool
  inUpdate : Bool
  isPk : Bool
  validate : List String

/-- `ResourceField::in_output`. -/
def ResourceField.inOutput (field : ResourceField) : Bool := !field.skip

/-- `ResourceModel`. -/
structure ResourceModel where
  sourceIdent : String
  outputIdent : String
  createInputIdent : String
  updateInputIdent : String
  pageIdent : String
  fields : List ResourceField
  complex : Bool
  paginate : Bool

/-- The options of the struct, while they are read. -/
structure ExposeOptions where
  name : Option String
  complex : Bool
  paginate : Bool

/-- The flags of a field, while they are read. -/
structure FieldFlags where
  skip : Bool
  inCreate : Bool
  inUpdate : Bool
  validate : List String

def parseArg (options : ExposeOptions) : ExposeArg → Except String ExposeOptions
  | .name value => .ok { options with name := some value }
  | .complex => .ok { options with complex := true }
  | .paginate => .ok { options with paginate := true }
  | .other => .error
      "unknown #[expose(...)] option (expected `name = \"...\"`, `complex`, or `paginate`)"

def parseKind (flags : FieldFlags) (kind : String) : Except String FieldFlags :=
  if kind = "create" then .ok { flags with inCreate := true }
  else if kind = "update" then .ok { flags with inUpdate := true }
  else .error "expected `create` or `update`"

def parseFieldArg (flags : FieldFlags) : FieldArg → Except String FieldFlags
  | .skip => .ok { flags with skip := true }
  | .input kinds => kinds.foldlM parseKind flags
  | .validate body => .ok { flags with validate := flags.validate ++ [body] }
  | .other => .error
      "unknown #[expose(...)] field option (expected `skip`, `input(...)`, or `validate(...)`)"

/-- One turn of the loop of `parse` over the fields. -/
def parseField (field : ItemField) : Except String ResourceField := do
  let flags ← field.expose.foldlM parseFieldArg ⟨false, false, false, []⟩
  if flags.skip && (flags.inCreate || flags.inUpdate) then
    .error "a `skip` field cannot also be an `input`"
  else .ok ⟨field.ident, field.ty, flags.skip, flags.inCreate, flags.inUpdate, field.primaryKey,
    flags.validate⟩

def parseFields : List ItemField → Except String (List ResourceField)
  | [] => .ok []
  | item :: items => do
    let field ← parseField item
    let fields ← parseFields items
    .ok (field :: fields)

/-- `attr::parse`. -/
def parse (args : List ExposeArg) (item : ItemStruct) : Except String ResourceModel := do
  let options ← args.foldlM parseArg ⟨none, false, false⟩
  match options.name with
  | none => .error "#[expose(name = \"...\")] is required (the GraphQL type / input base name)"
  | some name =>
    match item.fields with
    | .unnamed =>
      .error "#[expose] requires a struct with named fields (a SeaORM entity `Model`)"
    | .named items => do
      let fields ← parseFields items
      .ok ⟨item.ident, name, "Create" ++ name ++ "Input", "Update" ++ name ++ "Input",
        name ++ "Page", fields, options.complex, options.paginate⟩

/-! ## What is emitted -/

/-- The `NULL` of a variant. -/
def nullOf : Variant → Value
  | .bool => .bool none
  | .int => .int none
  | .bigInt => .bigInt none
  | .string => .string none
  | .uuid => .uuid none
  | .other name => .other name none

theorem variant_nullOf (k : Variant) : (nullOf k).variant = k := by
  cases k with
  | _ => rfl

/-- A value of its variant is the `NULL` of it iff it is `NULL`. -/
theorem eq_nullOf_iff {v : Value} {k : Variant} (hk : v.variant = k) :
    v = nullOf k ↔ v.isNull = true := by
  subst hk
  cases v with
  | _ v => cases v <;> simp [nullOf, Value.variant, Value.isNull]

/-- A struct that `#[expose]` accepts, on the entity it declares. -/
structure Exposed {σ : Schema} (E : Entity σ) where
  args : List ExposeArg
  ident : String
  items : List ItemField
  model : ResourceModel
  accepted : parse args ⟨ident, .named items⟩ = .ok model
  /-- The names of the fields are distinct. -/
  nodup : (items.map ItemField.ident).Nodup
  columns : E.columns = (items.filter fun f => f.ty.isColumn).map ItemField.ident
  variants : ∀ f ∈ items, f.ty.isColumn = true → σ E.type f.ident = f.ty.variant
  /-- `From<&Model>` reads only what the model has. -/
  relations : ∀ f ∈ model.fields, f.ty.isColumn = false → f.skip = true
  /-- `Uuid::to_string`. -/
  uuidToString : Uuid → String
  /-- A type written `Uuid` is that one, and reads its text back. -/
  uuid : ∀ f ∈ items, f.ty.isUuid = true → f.ty.variant = .uuid ∧ f.ty.nullable = false ∧
    ∀ u, f.ty.deserialize (.string (uuidToString u)) = some (.uuid (some u))

namespace Exposed

variable {σ : Schema} {E : Entity σ} (x : Exposed E)

/-- A field of the output object, serialized: `to_string` of a `Uuid`, else a clone. -/
def outputField (r : E.Row) (field : ResourceField) : Json :=
  if field.ty.isUuid then
    match r.get field.ident with
    | .uuid (some u) => .string (x.uuidToString u)
    | _ => .null
  else field.ty.serialize (r.get field.ident)

/-- The entries of the output object. -/
def outputMap (r : E.Row) : List (String × Json) :=
  (x.model.fields.filter ResourceField.inOutput).map fun f => (f.ident, x.outputField r f)

/-- `Output::from(&model)`, serialized. -/
def output (r : E.Row) : Json := .object (x.outputMap r)

/-- The columns of the model, with their types. -/
def columnTypes : List (Column × ColumnType) :=
  (x.items.filter fun f => f.ty.isColumn).map fun f => (f.ident, f.ty)

/-- The `Serialize` that the model derives. -/
def serialize (r : E.Row) : Option Json :=
  some (.object (x.columnTypes.map fun c => (c.1, c.2.serialize (r.get c.1))))

end Exposed

/-- A field in the `Deserialize` that a struct derives: a missing field, or one given twice, is an
error; a missing `Option` is `None`. -/
def readColumn (map : List (String × Json)) (c : Column × ColumnType) : Option Value :=
  match map.filter fun kv => kv.1 = c.1 with
  | [] => if c.2.nullable then some (nullOf c.2.variant) else none
  | [kv] => c.2.deserialize kv.2
  | _ => none

/-- The row with these values; a column holds values of its variant only. -/
def rowOf {σ : Schema} (E : Entity σ) (get : Column → Value) : E.Row where
  get c := if (get c).variant = σ E.type c then get c else nullOf (σ E.type c)
  typed c := by
    split
    · assumption
    · exact variant_nullOf _

namespace Exposed

variable {σ : Schema} {E : Entity σ} (x : Exposed E)

/-- The values read from an object. -/
def readRow (map : List (String × Json)) (c : Column) : Value :=
  ((x.columnTypes.find? fun column => column.1 = c).bind (readColumn map)).getD
    (nullOf (σ E.type c))

/-- The `Deserialize` that the model derives. -/
def deserialize : Json → Option E.Row
  | .object map =>
    if x.columnTypes.all fun c => (readColumn map c).isSome then some (rowOf E (x.readRow map))
    else none
  | _ => none

/-- What `#[crud]` is given. -/
def surface (service : CrudService E) (parseUuid : String → Except String Uuid) : Surface E where
  service := service
  output := x.output
  deserialize := x.deserialize
  serialize := x.serialize
  parseUuid := parseUuid

/-- The row is a value of the model's Rust type. -/
def Typed (r : E.Row) : Prop := ∀ c ∈ x.columnTypes, c.2.Holds (r.get c.1)

end Exposed

/-! ## The columns of a declaration -/

theorem parseField_eq_ok {item : ItemField} {field : ResourceField}
    (h : parseField item = .ok field) :
    field.ident = item.ident ∧ field.ty = item.ty ∧
      (field.skip = true → field.inCreate = false ∧ field.inUpdate = false) := by
  unfold parseField at h
  rw [bind_eq_ok] at h
  obtain ⟨flags, -, h⟩ := h
  split at h
  · cases h
  · rename_i hflags
    cases h
    refine ⟨rfl, rfl, fun (hskip : flags.skip = true) => ?_⟩
    simpa [hskip] using hflags

/-- The fields read from a struct are its fields. -/
theorem parseFields_eq_ok {items : List ItemField} {fields : List ResourceField}
    (h : parseFields items = .ok fields) :
    fields.map (fun f => (f.ident, f.ty)) = items.map (fun f => (f.ident, f.ty)) ∧
      ∀ f ∈ fields, f.skip = true → f.inCreate = false ∧ f.inUpdate = false := by
  induction items generalizing fields with
  | nil =>
    cases h
    exact ⟨rfl, fun f hf => absurd hf List.not_mem_nil⟩
  | cons item items ih =>
    unfold parseFields at h
    rw [bind_eq_ok] at h
    obtain ⟨field, hfield, h⟩ := h
    rw [bind_eq_ok] at h
    obtain ⟨rest, hrest, h⟩ := h
    cases h
    obtain ⟨hident, hty, hskip⟩ := parseField_eq_ok hfield
    obtain ⟨hmap, hskips⟩ := ih hrest
    refine ⟨by rw [List.map_cons, List.map_cons, hmap, hident, hty], fun f hf => ?_⟩
    rcases List.mem_cons.mp hf with rfl | hf
    · exact hskip
    · exact hskips f hf

/-- **What an accepted declaration is**: its columns are those of the struct, and a skipped one is
in no input. -/
theorem mem_parse {args : List ExposeArg} {ident : String} {items : List ItemField}
    {model : ResourceModel} (h : parse args ⟨ident, .named items⟩ = .ok model) :
    model.fields.map (fun f => (f.ident, f.ty)) = items.map (fun f => (f.ident, f.ty)) ∧
      ∀ f ∈ model.fields, f.skip = true → f.inCreate = false ∧ f.inUpdate = false := by
  unfold parse at h
  rw [bind_eq_ok] at h
  obtain ⟨options, -, h⟩ := h
  split at h
  · cases h
  · simp only at h
    rw [bind_eq_ok] at h
    obtain ⟨fields, hfields, h⟩ := h
    cases h
    exact parseFields_eq_ok hfields

/-- In a list of entries with distinct keys, one entry has the key. -/
theorem filter_key {β : Type} {l : List (String × β)} (hnodup : (l.map Prod.fst).Nodup)
    {kv : String × β} (h : kv ∈ l) : l.filter (fun e => e.1 = kv.1) = [kv] := by
  induction l with
  | nil => exact absurd h List.not_mem_nil
  | cons e l ih =>
    rw [List.map_cons, List.nodup_cons] at hnodup
    obtain ⟨hfresh, hnodup⟩ := hnodup
    rcases List.mem_cons.mp h with rfl | h
    · have hrest : l.filter (fun e => e.1 = kv.1) = [] := by
        refine List.filter_eq_nil_iff.mpr fun e he heq => hfresh ?_
        rw [← of_decide_eq_true heq]
        exact List.mem_map_of_mem he
      rw [List.filter_cons_of_pos (by simp), hrest]
    · have hne : e.1 ≠ kv.1 := fun heq => hfresh (heq ▸ List.mem_map_of_mem h)
      rw [List.filter_cons_of_neg (by simp [hne])]
      exact ih hnodup h

namespace Exposed

variable {σ : Schema} {E : Entity σ} (x : Exposed E)

theorem nodup_fields : (x.model.fields.map ResourceField.ident).Nodup := by
  have h : (x.model.fields.map fun f => (f.ident, f.ty)).map Prod.fst =
      (x.items.map fun f => (f.ident, f.ty)).map Prod.fst := by rw [(mem_parse x.accepted).1]
  rw [List.map_map, List.map_map] at h
  exact h ▸ x.nodup

theorem columnTypes_eq :
    x.columnTypes =
      (x.model.fields.filter fun f => f.ty.isColumn).map fun f => (f.ident, f.ty) := by
  have h : ((x.model.fields.map fun f => (f.ident, f.ty)).filter fun c => c.2.isColumn) =
      (x.items.map fun f => (f.ident, f.ty)).filter fun c => c.2.isColumn := by
    rw [(mem_parse x.accepted).1]
  rw [List.filter_map, List.filter_map] at h
  exact h.symm

theorem mem_columnTypes {f : ResourceField} (hf : f ∈ x.model.fields)
    (hcolumn : f.ty.isColumn = true) : (f.ident, f.ty) ∈ x.columnTypes := by
  rw [columnTypes_eq]
  exact List.mem_map_of_mem (List.mem_filter.mpr ⟨hf, hcolumn⟩)

theorem columns_eq : E.columns = x.columnTypes.map Prod.fst := by
  rw [x.columns, columnTypes, List.map_map]
  rfl

theorem nodup_columnTypes : (x.columnTypes.map Prod.fst).Nodup := by
  rw [columnTypes, List.map_map]
  exact (List.filter_sublist.map _).nodup x.nodup

theorem variant_of_mem {f : ResourceField} (hf : f ∈ x.model.fields)
    (hcolumn : f.ty.isColumn = true) : σ E.type f.ident = f.ty.variant := by
  obtain ⟨item, hitem, heq⟩ := List.mem_map.mp (x.mem_columnTypes hf hcolumn)
  obtain ⟨hitem, hcolumn⟩ := List.mem_filter.mp hitem
  have hident : item.ident = f.ident := congrArg Prod.fst heq
  have hty : item.ty = f.ty := congrArg Prod.snd heq
  rw [← hident, ← hty]
  exact x.variants item hitem hcolumn

/-! ## Reading an output back -/

variable {r : E.Row}

/-- An exposed column is read back as it was. -/
theorem deserialize_outputField (hr : x.Typed r) {f : ResourceField} (hf : f ∈ x.model.fields)
    (hcolumn : f.ty.isColumn = true) :
    f.ty.deserialize (x.outputField r f) = some (r.get f.ident) := by
  have hmem := x.mem_columnTypes hf hcolumn
  obtain ⟨hvariant, hnull⟩ := hr _ hmem
  unfold outputField
  by_cases huuid : f.ty.isUuid = true
  · obtain ⟨item, hitem, heq⟩ := List.mem_map.mp hmem
    have hty : item.ty = f.ty := congrArg Prod.snd heq
    obtain ⟨hisUuid, hnullable, htext⟩ := x.uuid item (List.mem_of_mem_filter hitem)
      (by rw [hty]; exact huuid)
    rw [hty] at hisUuid hnullable htext
    rw [if_pos huuid]
    have hnotNull := hnull hnullable
    rw [hisUuid] at hvariant
    -- a `Uuid` that is not `NULL`
    cases hget : r.get f.ident with
    | uuid v =>
      cases v with
      | none => simp [hget, Value.isNull] at hnotNull
      | some u => exact htext u
    | _ => simp [hget, Value.variant] at hvariant
  · rw [if_neg huuid]
    exact f.ty.round_trip _ hvariant hnull

/-- **What a column of an output is read back as**: itself if it is exposed; if it is skipped,
`None` for an `Option` and an error for any other type. -/
theorem readColumn_output (hr : x.Typed r) {f : ResourceField} (hf : f ∈ x.model.fields)
    (hcolumn : f.ty.isColumn = true) :
    readColumn (x.outputMap r) (f.ident, f.ty) =
      if f.skip then (if f.ty.nullable then some (nullOf f.ty.variant) else none)
      else some (r.get f.ident) := by
  have hkeys : ((x.outputMap r).map Prod.fst).Nodup := by
    rw [outputMap, List.map_map]
    exact (List.filter_sublist.map _).nodup x.nodup_fields
  unfold readColumn
  by_cases hskip : f.skip = true
  · have hnone : (x.outputMap r).filter (fun kv => kv.1 = f.ident) = [] := by
      refine List.filter_eq_nil_iff.mpr fun kv hkv heq => ?_
      obtain ⟨g, hg, rfl⟩ := List.mem_map.mp hkv
      obtain ⟨hg, hshown⟩ := List.mem_filter.mp hg
      obtain rfl : g = f := List.inj_on_of_nodup_map x.nodup_fields hg hf (of_decide_eq_true heq)
      simp [ResourceField.inOutput, hskip] at hshown
    rw [hnone, if_pos hskip]
  · have hshown : (f.ident, x.outputField r f) ∈ x.outputMap r :=
      List.mem_map_of_mem (List.mem_filter.mpr ⟨hf, by simpa [ResourceField.inOutput] using hskip⟩)
    rw [filter_key hkeys hshown, if_neg hskip]
    exact x.deserialize_outputField hr hf hcolumn

/-- A column of a row read from an object. -/
theorem get_rowOf {map : List (String × Json)} {f : ResourceField} (hf : f ∈ x.model.fields)
    (hcolumn : f.ty.isColumn = true) {v : Value} (hv : readColumn map (f.ident, f.ty) = some v)
    (hvariant : v.variant = f.ty.variant) :
    (rowOf E (x.readRow map)).get f.ident = v := by
  have hfind : x.columnTypes.find? (fun column => column.1 = f.ident) = some (f.ident, f.ty) := by
    rw [← List.head?_filter, filter_key x.nodup_columnTypes (x.mem_columnTypes hf hcolumn)]
    rfl
  have hread : x.readRow map f.ident = v := by
    unfold readRow
    rw [hfind, Option.bind_some, hv]
    rfl
  unfold rowOf
  simp only
  rw [hread, if_pos (hvariant.trans (x.variant_of_mem hf hcolumn).symm)]

/-- **An output parses as a model iff every skipped column is an `Option`.** -/
theorem deserialize_output_eq_some (hr : x.Typed r) {model : E.Row} :
    x.deserialize (x.output r) = some model ↔
      (∀ f ∈ x.model.fields, f.ty.isColumn = true → f.skip = true → f.ty.nullable = true) ∧
        rowOf E (x.readRow (x.outputMap r)) = model := by
  have hread : (x.columnTypes.all fun c => (readColumn (x.outputMap r) c).isSome) = true ↔
      ∀ f ∈ x.model.fields, f.ty.isColumn = true → f.skip = true → f.ty.nullable = true := by
    rw [List.all_eq_true]
    constructor
    · intro h f hf hcolumn hskip
      have hsome := h _ (x.mem_columnTypes hf hcolumn)
      rw [x.readColumn_output hr hf hcolumn, if_pos hskip] at hsome
      by_contra hnullable
      rw [if_neg hnullable] at hsome
      cases hsome
    · intro h c hc
      rw [columnTypes_eq] at hc
      obtain ⟨f, hf, rfl⟩ := List.mem_map.mp hc
      obtain ⟨hf, hcolumn⟩ := List.mem_filter.mp hf
      rw [x.readColumn_output hr hf hcolumn]
      by_cases hskip : f.skip = true
      · rw [if_pos hskip, if_pos (h f hf hcolumn hskip)]
        rfl
      · rw [if_neg hskip]
        rfl
  unfold deserialize output
  simp only
  rw [ite_eq_iff, hread]
  simp

/-- Every skipped column of the row is an `Option`, and `None`. -/
def SkipsNull (r : E.Row) : Prop :=
  ∀ f ∈ x.model.fields, f.ty.isColumn = true → f.skip = true →
    f.ty.nullable = true ∧ (r.get f.ident).isNull = true

/-- **A row survives being parsed back iff its skipped columns are `None`.** -/
theorem parsed_back_iff (hr : x.Typed r) :
    (∃ model, x.deserialize (x.output r) = some model ∧ ∀ c ∈ E.columns, model.get c = r.get c) ↔
      x.SkipsNull r := by
  have hvariant : ∀ f ∈ x.model.fields, f.ty.isColumn = true →
      (r.get f.ident).variant = f.ty.variant :=
    fun f hf hcolumn => (hr _ (x.mem_columnTypes hf hcolumn)).1
  -- a skipped `Option` is `NULL` in the row that is read
  have hskipped : ∀ f ∈ x.model.fields, f.ty.isColumn = true → f.skip = true →
      f.ty.nullable = true →
      (rowOf E (x.readRow (x.outputMap r))).get f.ident = nullOf f.ty.variant := by
    intro f hf hcolumn hskip hnullable
    refine x.get_rowOf hf hcolumn ?_ (variant_nullOf _)
    rw [x.readColumn_output hr hf hcolumn, if_pos hskip, if_pos hnullable]
  constructor
  · rintro ⟨model, hparse, hsame⟩ f hf hcolumn hskip
    obtain ⟨hnullable, rfl⟩ := (x.deserialize_output_eq_some hr).mp hparse
    have hnull := hnullable f hf hcolumn hskip
    have hcolumn' : f.ident ∈ E.columns := by
      rw [x.columns_eq]
      exact List.mem_map_of_mem (x.mem_columnTypes hf hcolumn)
    have hget := hsame f.ident hcolumn'
    rw [hskipped f hf hcolumn hskip hnull] at hget
    exact ⟨hnull, (eq_nullOf_iff (hvariant f hf hcolumn)).mp hget.symm⟩
  · intro h
    refine ⟨_, (x.deserialize_output_eq_some hr).mpr
      ⟨fun f hf hcolumn hskip => (h f hf hcolumn hskip).1, rfl⟩, fun c hc => ?_⟩
    rw [x.columns_eq, columnTypes_eq, List.map_map] at hc
    obtain ⟨f, hf, rfl⟩ := List.mem_map.mp hc
    obtain ⟨hf, hcolumn⟩ := List.mem_filter.mp hf
    show (rowOf E (x.readRow (x.outputMap r))).get f.ident = r.get f.ident
    by_cases hskip : f.skip = true
    · obtain ⟨hnullable, hnull⟩ := h f hf hcolumn hskip
      rw [hskipped f hf hcolumn hskip hnullable]
      exact ((eq_nullOf_iff (hvariant f hf hcolumn)).mpr hnull).symm
    · refine x.get_rowOf hf hcolumn ?_ (hvariant f hf hcolumn)
      rw [x.readColumn_output hr hf hcolumn, if_neg hskip]

end Exposed

/-! ## The response -/

section Response

variable {σ : Schema} {E : Entity σ} {surface : Surface E}

/-- **The rows of a response survive the mask**: the answer is a success, and each row is parsed
back with the same value in every column, so that a predicate on the entity's columns decides it
alike. -/
structure Survived (surface : Surface E) (rows : List E.Row)
    (answer : Except PoemError (Response (Payload E))) : Prop where
  success : ∃ resp, answer = .ok resp ∧ isSuccess resp.status = true
  parsed : ∀ r ∈ rows, ∃ model, surface.deserialize (surface.output r) = some model ∧
    (∀ c ∈ E.columns, model.get c = r.get c) ∧
    ∀ p : Predicate, p.Over E.columns → p.matches model.get = p.matches r.get

theorem exists_reparse {rows : List E.Row}
    (h : ∀ r ∈ rows, ∃ model, surface.deserialize (surface.output r) = some model) :
    ∃ models, reparse surface (rows.map (item surface)) = some models := by
  unfold reparse
  induction rows with
  | nil => exact ⟨[], rfl⟩
  | cons r rows ih =>
    obtain ⟨model, hmodel⟩ := h r List.mem_cons_self
    obtain ⟨models, hmodels⟩ := ih fun s hs => h s (List.mem_cons_of_mem r hs)
    refine ⟨(r, model) :: models, ?_⟩
    rw [List.map_cons, List.mapM_cons, hmodels]
    simp [item, hmodel]

theorem isSuccess_maskResponse_rows {ability : Ability} {rows : List E.Row} {cursor : Option Uuid}
    (h : ∀ r ∈ rows, ∃ model, surface.deserialize (surface.output r) = some model) :
    isSuccess (maskResponse surface ability .read
      ⟨200, .json (.rows (rows.map (item surface)) cursor)⟩).status = true := by
  obtain ⟨models, hmodels⟩ := exists_reparse h
  simp [maskResponse, isSuccess, hmodels]

theorem isSuccess_maskResponse_row {ability : Ability} {r model : E.Row}
    (h : surface.deserialize (surface.output r) = some model) :
    isSuccess (maskResponse surface ability .read
      ⟨200, .json (.row (item surface r))⟩).status = true := by
  simp [maskResponse, isSuccess, item, h]

/-- **Exposed entities and the REST mask.** For every accepted declaration and every generated list,
page or get, under any wiring: the answer is a success and its rows are parsed back as they were iff
every skipped column of these rows is an `Option` and `None`. -/
theorem exposed_survives_iff {ρ : Type} (x : Exposed E) (service : CrudService E)
    (parseUuid : String → Except String Uuid) {db : Backend E} {executor : Bool}
    {guards : List (Guard ρ)} {req : Request ρ} {ability : Ability}
    {op : RestOp (x.surface service parseUuid)} {t t' : Table E} {status : Nat}
    {payload : Payload E} (hrun : (runGuards guards req).2 = .ok ())
    (hability : restAbility guards req = some ability) (hread : op.action = .read)
    (hhandle : handle (x.surface service parseUuid) db (some ability) ⟨executor, some ability⟩ op
      t = .ok (⟨status, .json payload⟩, t'))
    (htyped : ∀ r ∈ payload.shown, x.Typed r) :
    Survived (x.surface service parseUuid) payload.shown
        (route (x.surface service parseUuid) db executor guards req op t).1 ↔
      ∀ r ∈ payload.shown, x.SkipsNull r := by
  constructor
  · intro h r hr
    obtain ⟨model, hparse, hsame, -⟩ := h.parsed r hr
    exact (x.parsed_back_iff (htyped r hr)).mp ⟨model, hparse, hsame⟩
  · intro h
    have hparsed : ∀ r ∈ payload.shown, ∃ model, x.deserialize (x.output r) = some model ∧
        ∀ c ∈ E.columns, model.get c = r.get c :=
      fun r hr => (x.parsed_back_iff (htyped r hr)).mpr (h r hr)
    refine ⟨⟨_, route_of_handle hrun hability hhandle, ?_⟩, fun r hr => ?_⟩
    · rw [hread]
      rcases handle_read hread hhandle with ⟨rows, cursor, heq, -⟩ | ⟨r, id, heq, -⟩
      · cases heq
        refine isSuccess_maskResponse_rows fun r hr => ?_
        obtain ⟨model, hparse, -⟩ := hparsed r (by rwa [Payload.shown, map_row_item])
        exact ⟨model, hparse⟩
      · cases heq
        obtain ⟨model, hparse, -⟩ := hparsed r (List.mem_singleton_self r)
        exact isSuccess_maskResponse_row hparse
    · obtain ⟨model, hparse, hsame⟩ := hparsed r hr
      exact ⟨model, hparse, hsame, fun p hp => Predicate.matches_congr hsame hp⟩

end Response

/-! ## A user and its organisation

The entity of the crate's documentation, of which only the ids are kept: the organisation is a
server-only column, and skipped. -/

/-- The last digits of a number in base 16. -/
def toHex : Nat → Nat → List Char
  | 0, _ => []
  | k + 1, n => toHex k (n / 16) ++ [Nat.digitChar (n % 16)]

def hexValue (c : Char) : Option Nat := (List.range 16).find? fun d => Nat.digitChar d = c

def fromHex (cs : List Char) : Option Nat :=
  cs.foldlM (fun n c => (hexValue c).map fun d => 16 * n + d) 0

theorem hexValue_digitChar : ∀ d < 16, hexValue (Nat.digitChar d) = some d := by
  decide

theorem fromHex_toHex {k n : Nat} (h : n < 16 ^ k) : fromHex (toHex k n) = some n := by
  induction k generalizing n with
  | zero =>
    have hzero : n = 0 := by simpa using h
    subst hzero
    rfl
  | succ k ih =>
    have hdigit : n % 16 < 16 := Nat.mod_lt n (by decide)
    have hrest : n / 16 < 16 ^ k := by
      rw [Nat.pow_succ] at h
      omega
    have hfold : fromHex (toHex k (n / 16)) = some (n / 16) := ih hrest
    unfold fromHex at hfold ⊢
    unfold toHex
    rw [List.foldlM_append, hfold]
    simp only [Option.bind_eq_bind, Option.bind_some, List.foldlM_cons, List.foldlM_nil,
      hexValue_digitChar _ hdigit, Option.map_some, Option.pure_def]
    congr 1
    omega

theorem hyphen_notMem_toHex (k n : Nat) : '-' ∉ toHex k n := by
  induction k generalizing n with
  | zero => exact List.not_mem_nil
  | succ k ih =>
    have hdigit : ∀ d < 16, Nat.digitChar d ≠ '-' := by decide
    unfold toHex
    rw [List.mem_append, List.mem_singleton]
    rintro (h | h)
    · exact ih (n / 16) h
    · exact hdigit (n % 16) (Nat.mod_lt n (by decide)) h.symm

/-- Hyphens after groups of these lengths. -/
def hyphenate : List Nat → List Char → List Char
  | [], ds => ds
  | n :: ns, ds => ds.take n ++ '-' :: hyphenate ns (ds.drop n)

theorem filter_hyphenate (ns : List Nat) {ds : List Char} (h : '-' ∉ ds) :
    (hyphenate ns ds).filter (fun c => c ≠ '-') = ds := by
  have hkeep : ∀ l : List Char, '-' ∉ l → l.filter (fun c => c ≠ '-') = l := by
    intro l hl
    refine List.filter_eq_self.mpr fun c hc => decide_eq_true ?_
    rintro rfl
    exact hl hc
  induction ns generalizing ds with
  | nil => exact hkeep ds h
  | cons n ns ih =>
    unfold hyphenate
    rw [List.filter_append, List.filter_cons_of_neg (by simp),
      hkeep _ fun hmem => h (List.mem_of_mem_take hmem),
      ih fun hmem => h (List.mem_of_mem_drop hmem), List.take_append_drop]

/-- The hyphenated form of a `Uuid`. -/
def hyphenated (u : Uuid) : String := String.ofList (hyphenate [8, 4, 4, 4] (toHex 32 u.toNat))

def parseHyphenated (s : String) : Option Uuid :=
  (fromHex (s.toList.filter fun c => c ≠ '-')).map (BitVec.ofNat 128)

theorem parseHyphenated_hyphenated (u : Uuid) : parseHyphenated (hyphenated u) = some u := by
  unfold parseHyphenated hyphenated
  rw [String.toList_ofList, filter_hyphenate _ (hyphen_notMem_toHex 32 u.toNat),
    fromHex_toHex (by exact u.isLt)]
  simp

/-- `Uuid`. -/
def uuidType : ColumnType where
  segments := ["Uuid"]
  isColumn := true
  variant := .uuid
  nullable := false
  serialize
    | .uuid (some u) => .string (hyphenated u)
    | _ => .null
  deserialize
    | .string s => (parseHyphenated s).map fun u => .uuid (some u)
    | _ => none
  round_trip v hvariant hnull := by
    have hnotNull := hnull rfl
    cases v with
    | uuid v =>
      cases v with
      | none => cases hnotNull
      | some u => simp [parseHyphenated_hyphenated]
    | _ => cases hvariant

/-- The entity, with its organisation skipped or not. -/
def exposedUser (skipped : Bool) : Exposed userEntity where
  args := [.name "User"]
  ident := "Model"
  items := [⟨"id", uuidType, true, []⟩,
    ⟨"org_id", uuidType, false, if skipped then [.skip] else []⟩]
  model := ⟨"Model", "User", "CreateUserInput", "UpdateUserInput", "UserPage",
    [⟨"id", uuidType, false, false, false, true, []⟩,
      ⟨"org_id", uuidType, skipped, false, false, false, []⟩], false, false⟩
  accepted := by
    cases skipped with
    | false => rfl
    | true => rfl
  nodup := by
    show ["id", "org_id"].Nodup
    decide
  columns := rfl
  variants f hf _ := by
    simp only [List.mem_cons, List.not_mem_nil, or_false] at hf
    rcases hf with rfl | rfl
    · rfl
    · rfl
  relations f hf hcolumn := by
    simp only [List.mem_cons, List.not_mem_nil, or_false] at hf
    rcases hf with rfl | rfl
    · cases hcolumn
    · cases hcolumn
  uuidToString := hyphenated
  uuid f hf _ := by
    simp only [List.mem_cons, List.not_mem_nil, or_false] at hf
    rcases hf with rfl | rfl
    · exact ⟨rfl, rfl, fun u => by simp [uuidType, parseHyphenated_hyphenated]⟩
    · exact ⟨rfl, rfl, fun u => by simp [uuidType, parseHyphenated_hyphenated]⟩

theorem typed_user (skipped : Bool) (id org : Uuid) :
    (exposedUser skipped).Typed (user id org) := by
  intro c hc
  obtain ⟨f, hf, rfl⟩ := List.mem_map.mp hc
  have hf := List.mem_of_mem_filter hf
  simp only [exposedUser, List.mem_cons, List.not_mem_nil, or_false] at hf
  rcases hf with rfl | rfl
  · exact ⟨rfl, fun _ => rfl⟩
  · exact ⟨rfl, fun _ => rfl⟩

abbrev exposedSurface (skipped : Bool) : Surface userEntity :=
  (exposedUser skipped).surface usersService parseUuidText

/-- The only user, listed by a caller of its organisation. -/
def onlyAlice : Table userEntity := Table.single (user alice acme) rfl

theorem handle_onlyAlice (skipped : Bool) :
    handle (exposedSurface skipped) usersDb (some (buildAbility (tenantRules acme)))
        ⟨true, some (buildAbility (tenantRules acme))⟩ .list onlyAlice =
      .ok (⟨200, .json (.rows [item (exposedSurface skipped) (user alice acme)] none)⟩,
        onlyAlice) := rfl

/-- Exposed whole, a user survives the mask of a list. -/
theorem whole_user_survives :
    Survived (exposedSurface false) [user alice acme]
      (route (exposedSurface false) usersDb true [tenantGuard] ⟨none, acme⟩ .list onlyAlice).1 := by
  have htyped : ∀ r ∈ [user alice acme], (exposedUser false).Typed r := by
    intro r hr
    rw [List.mem_singleton.mp hr]
    exact typed_user false alice acme
  refine (exposed_survives_iff (exposedUser false) usersService parseUuidText rfl rfl rfl
    (handle_onlyAlice false) htyped).mpr fun r _ f hf _ hskip => ?_
  simp only [exposedUser, List.mem_cons, List.not_mem_nil, or_false] at hf
  rcases hf with rfl | rfl
  · cases hskip
  · cases hskip

/-- With the organisation skipped, as documented, the list of users is a `500`. -/
theorem skipped_org_fails :
    (route (exposedSurface true) usersDb true [tenantGuard] ⟨none, acme⟩ .list onlyAlice).1 =
      .ok ⟨500, .text "response masking failed: body did not match the authorized subject type"⟩ ∧
    ¬ Survived (exposedSurface true) [user alice acme]
      (route (exposedSurface true) usersDb true [tenantGuard] ⟨none, acme⟩ .list onlyAlice).1 := by
  have hnone : (exposedSurface true).deserialize ((exposedSurface true).output (user alice acme)) =
      none := by
    refine Option.eq_none_iff_forall_ne_some.mpr fun model hparse => ?_
    obtain ⟨hnullable, -⟩ :=
      ((exposedUser true).deserialize_output_eq_some (typed_user true alice acme)).mp hparse
    cases hnullable _ (List.mem_cons_of_mem _ List.mem_cons_self) rfl rfl
  refine ⟨?_, fun h => ?_⟩
  · have hroute : (route (exposedSurface true) usersDb true [tenantGuard] ⟨none, acme⟩ .list
        onlyAlice).1 = _ := route_of_handle rfl rfl (handle_onlyAlice true)
    rw [hroute]
    simp [maskResponse, isSuccess, reparse, item, hnone]
  · obtain ⟨model, hparse, -⟩ := h.parsed _ (List.mem_singleton_self _)
    rw [hnone] at hparse
    cases hparse

end Nestrs.Resource
