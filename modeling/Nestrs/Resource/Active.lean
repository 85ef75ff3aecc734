import Nestrs.Resource.Expose

/-!
# The inputs of an exposed entity and what they write

Model of the input types `#[expose]` emits (`crates/nestrs-resource-macros/src/input.rs`) and of
their conversions into active models (`active.rs`), which the default `create` and `update` of
`CrudService` call.

* `Create<Name>Input` and `Update<Name>Input` have the fields marked `input(create)` and
  `input(update)`, each of its column's type, with the `validate(...)` bodies of the field.
* `into_active_model` sets the create columns, which are the fields marked `input(create)` **less
  the primary key**, seeds a key whose type is written `Uuid` with `Uuid::now_v7()`, and leaves the
  rest `NotSet`. `now_v7` is the parameter `seed`.
* `apply_to` sets every field marked `input(update)` on the loaded row. Here the primary key is not
  left out: `Update::one` then addresses the row whose key the *input* gives.

Results:
* `update_framed_iff`: an update of an authorized row keeps to that row and its update columns iff
  the key it addresses is still the row's, or nothing is written;
* `create_framed`: a create adds one row, of a fresh key, with the input's columns;
* **`generated_writes_framed`**: both, for every declaration, database state and input.
-/

namespace Nestrs.Resource

open Nestrs.Lib Nestrs.Authz Nestrs.Orm Nestrs.Crud

/-- An exposed entity: its key is a column, the one `#[sea_orm(primary_key)]` marks. -/
structure ExposedEntity {σ : Schema} (E : Entity σ) extends Exposed E where
  pk : ∀ f ∈ model.fields, f.isPk = true → f.ident = E.pk
  pk_mem : E.pk ∈ E.columns

namespace Exposed

variable {σ : Schema} {E : Entity σ} (x : Exposed E)

/-- A value of an input struct: one value of its type for each field it has. -/
structure Input (included : ResourceField → Bool) where
  get : Column → Value
  typed : ∀ f ∈ x.model.fields, included f = true → f.ty.Holds (get f.ident)

/-- The column is a field of the input struct. -/
def has (included : ResourceField → Bool) (c : Column) : Bool :=
  x.model.fields.any fun f => included f && f.ident == c

variable {x} {included : ResourceField → Bool}

theorem has_iff {c : Column} :
    x.has included c = true ↔ ∃ f ∈ x.model.fields, included f = true ∧ f.ident = c := by
  unfold has
  simp [List.any_eq_true]

/-- An input is never a relation: those are skipped, and a skipped field is in no input. -/
theorem isColumn_of_input {f : ResourceField} (hf : f ∈ x.model.fields)
    (hinput : f.inCreate = true ∨ f.inUpdate = true) : f.ty.isColumn = true := by
  cases hcolumn : f.ty.isColumn with
  | true => rfl
  | false =>
    obtain ⟨hcreate, hupdate⟩ := (mem_parse x.accepted).2 f hf (x.relations f hf hcolumn)
    rcases hinput with h | h
    · exact absurd (hcreate.symm.trans h) (by simp)
    · exact absurd (hupdate.symm.trans h) (by simp)

/-- The values of an input have their columns' variants. -/
theorem Input.variant_get (input : x.Input included)
    (hinput : ∀ f, included f = true → f.inCreate = true ∨ f.inUpdate = true) {c : Column}
    (h : x.has included c = true) : (input.get c).variant = σ E.type c := by
  obtain ⟨f, hf, hincluded, rfl⟩ := has_iff.mp h
  rw [x.variant_of_mem hf (isColumn_of_input hf (hinput f hincluded))]
  exact (input.typed f hf hincluded).1

theorem mem_columns_of_has (hinput : ∀ f, included f = true → f.inCreate = true ∨ f.inUpdate = true)
    {c : Column} (h : x.has included c = true) : c ∈ E.columns := by
  obtain ⟨f, hf, hincluded, rfl⟩ := has_iff.mp h
  rw [x.columns_eq]
  exact List.mem_map_of_mem (x.mem_columnTypes hf (isColumn_of_input hf (hinput f hincluded)))

end Exposed

namespace ExposedEntity

variable {σ : Schema} {E : Entity σ} (x : ExposedEntity E)

/-- `Create<Name>Input`. -/
abbrev CreateInput : Type := x.Input ResourceField.inCreate

/-- `Update<Name>Input`. -/
abbrev UpdateInput : Type := x.Input ResourceField.inUpdate

/-- The columns `into_active_model` sets from the input. -/
def createColumn (c : Column) : Bool := x.has (fun f => f.inCreate && !f.isPk) c

/-- The columns `apply_to` sets from the input. -/
def updateColumn (c : Column) : Bool := x.has ResourceField.inUpdate c

/-- The column `into_active_model` seeds. -/
def seeded (c : Column) : Bool :=
  match x.model.fields.find? ResourceField.isPk with
  | some pk => pk.ty.isUuid && pk.ident == c
  | none => false

variable {x}

theorem seeded_eq {c : Column} (h : x.seeded c = true) : c = E.pk := by
  unfold seeded at h
  split at h
  · rename_i pk hfind
    have hmem := List.mem_of_find?_eq_some hfind
    have hpk := List.find?_some hfind
    simp only [Bool.and_eq_true, beq_iff_eq] at h
    rw [← h.2]
    exact x.pk pk hmem hpk
  · cases h

theorem has_of_createColumn {c : Column} (h : x.createColumn c = true) :
    x.has ResourceField.inCreate c = true := by
  obtain ⟨f, hf, hincluded, rfl⟩ := Exposed.has_iff.mp h
  simp only [Bool.and_eq_true] at hincluded
  exact Exposed.has_iff.mpr ⟨f, hf, hincluded.1, rfl⟩

variable (x)

/-- `CreateModel::into_active_model`. -/
def intoActiveModel (seed : Uuid) (input : x.CreateInput) : ActiveModel E where
  get c :=
    if x.createColumn c then .set (input.get c)
    else if x.seeded c then .set (.uuid (some seed))
    else .notSet
  typed c v h := by
    split at h
    · rename_i hcreate
      cases h
      exact input.variant_get (fun f => Or.inl) (has_of_createColumn hcreate)
    · split at h
      · rename_i hseeded
        cases h
        rw [seeded_eq hseeded, E.uuid]
        rfl
      · cases h

/-- `UpdateModel::apply_to`. -/
def applyTo (input : x.UpdateInput) (active : ActiveModel E) : ActiveModel E where
  get c := if x.updateColumn c then .set (input.get c) else active.get c
  typed c v h := by
    split at h
    · rename_i hupdate
      cases h
      exact input.variant_get (fun f => Or.inr) hupdate
    · exact active.typed c v h

/-- The entity's service, with the default methods. -/
def service (seed : Uuid) : CrudService E where
  Create := x.CreateInput
  Update := x.UpdateInput
  intoActiveModel := x.intoActiveModel seed
  applyTo := x.applyTo

/-! ## The frame of an update -/

/-- The row with the columns marked `input(update)` set to the input's values. -/
def written (input : x.UpdateInput) (r : E.Row) : E.Row where
  get c := if x.updateColumn c then input.get c else r.get c
  typed c := by
    split
    · rename_i hupdate
      exact input.variant_get (fun f => Or.inr) hupdate
    · exact r.typed c

/-- The key an update of the row with key `i` addresses: the input's, if it has one. -/
def addressedKey (i : Uuid) (input : x.UpdateInput) : Option Uuid :=
  if x.updateColumn E.pk then
    match input.get E.pk with
    | .uuid v => v
    | _ => none
  else some i

section Update

variable (seed : Uuid) (ambient : Ambient) (db : Backend E) (t : Table E) (i : Uuid) (m : E.Row)
  (input : x.UpdateInput)

/-- **The frame of an update** of the row `m` of key `i`: that row gets the input's values in the
columns marked `input(update)` and keeps the others, and every other row stays as it is. -/
def UpdateFramed : Prop :=
  ∀ (row : E.Row) (t' : Table E),
    (x.service seed).update ambient db m input t = .ok (row, t') →
    t'.rows = t.rows.map fun s => if E.key s = some i then x.written input s else s

/-- No row takes the write: none that the caller may update has the key it addresses, or the
database turns the values down. -/
def Refused : Prop :=
  ∀ k, x.addressedKey i input = some k →
    ¬ t.Admits db (x.applyTo input (Orm.intoActiveModel m)) (scopeFor ambient .update E.type) k

variable {x seed ambient db t i m input}

theorem key_applyTo (hm : E.key m = some i) :
    (x.applyTo input (Orm.intoActiveModel m)).key = x.addressedKey i input := by
  unfold ActiveModel.key addressedKey applyTo Orm.intoActiveModel
  by_cases hpk : x.updateColumn E.pk = true
  · simp only [hpk, if_true, ActiveValue.value]
    cases input.get E.pk <;> rfl
  · rw [← hm]
    simp only [hpk, ActiveValue.value]
    unfold Entity.key
    cases m.get E.pk <;> rfl

/-- A row of the key the input gives has that key in its key column. -/
theorem get_pk_of_addressedKey {s : E.Row} (hs : E.key s = some i)
    (htarget : x.addressedKey i input = some i) (hpk : x.updateColumn E.pk = true) :
    input.get E.pk = s.get E.pk := by
  have hrow : s.get E.pk = .uuid (some i) := by
    unfold Entity.key at hs
    split at hs
    · rename_i v hget
      rw [hget, hs]
    · cases hs
  unfold addressedKey at htarget
  rw [if_pos hpk] at htarget
  split at htarget
  · rename_i v hget
    rw [hget, htarget, hrow]
  · cases htarget

/-- Setting the update columns other than the key, on a row the input leaves its key, writes the
update columns. -/
theorem overwrite_applyTo {s : E.Row} (hs : E.key s = some i)
    (htarget : x.addressedKey i input = some i) :
    (x.applyTo input (Orm.intoActiveModel m)).overwrite s = x.written input s := by
  refine Model.ext (funext fun c => ?_)
  show ((x.applyTo input (Orm.intoActiveModel m)).sets c).getD (s.get c) =
    if x.updateColumn c then input.get c else s.get c
  unfold ActiveModel.sets applyTo Orm.intoActiveModel
  by_cases hupdate : x.updateColumn c = true
  · have hmem : c ∈ E.columns := Exposed.mem_columns_of_has (fun f => Or.inr) hupdate
    by_cases hkey : c = E.pk
    · subst hkey
      simp only [hupdate, ne_eq, not_true_eq_false, and_false, if_false, if_true, Option.getD_none]
      exact (get_pk_of_addressedKey hs htarget hupdate).symm
    · simp [hupdate, hmem, hkey]
  · simp [hupdate]

theorem key_written (hm : E.key m = some i) :
    E.key (x.written input m) = x.addressedKey i input := by
  unfold Entity.key addressedKey written
  by_cases hpk : x.updateColumn E.pk = true
  · cases hin : input.get E.pk <;> simp only [hpk, if_true, hin]
  · simp only [hpk]
    exact hm

/-- With the row's own key addressed, the update is framed. -/
theorem updateFramed_of_target (hm : E.key m = some i)
    (htarget : x.addressedKey i input = some i) :
    x.UpdateFramed seed ambient db t i m input := by
  intro row t' h
  unfold CrudService.update Repo.update at h
  rw [bind_eq_ok] at h
  obtain ⟨-, -, h⟩ := h
  obtain ⟨id, hid, hadmits, hdone⟩ := Table.updateOne_eq_ok h
  have hid : some id = some i := by
    rw [← hid, ← htarget]
    exact key_applyTo hm
  obtain rfl := Option.some.inj hid
  rcases hdone with ⟨hnoop, rfl⟩ | ⟨hnoop, hrows⟩
  · symm
    refine List.map_id'' (fun s => ?_) t'.rows
    split
    · rename_i hs
      rw [← overwrite_applyTo (m := m) hs htarget]
      exact ActiveModel.overwrite_of_isNoop hnoop s
    · rfl
  · rw [hrows]
    refine List.map_congr_left fun s hs => ?_
    unfold Table.Admits at hadmits
    rw [if_neg (fun htrue => absurd (hnoop.symm.trans htrue) (by simp))] at hadmits
    obtain ⟨r, hfound, -⟩ := hadmits
    have hr := Table.key_of_addressed (List.find?_some hfound)
    have hmem := List.mem_of_find?_eq_some hfound
    by_cases hkey : E.key s = some id
    · -- the row of the key is the one the `WHERE` found
      have hsame : s = r := Table.eq_of_key hs hmem (hkey.trans hr.symm)
      rw [if_pos ((Table.addressed_iff_eq hfound hs).mpr hsame), if_pos hkey]
      exact overwrite_applyTo hkey htarget
    · rw [if_neg fun haddressed => hkey (Table.key_of_addressed haddressed), if_neg hkey]

/-- An update that another row takes is not: the row of key `i` keeps its key. -/
theorem not_updateFramed (hm : E.key m = some i) (hmem : m ∈ t.rows)
    (hexec : ambient.executor = true) {k : Uuid} (hk : x.addressedKey i input = some k)
    (hne : k ≠ i)
    (hadmits : t.Admits db (x.applyTo input (Orm.intoActiveModel m))
      (scopeFor ambient .update E.type) k) :
    ¬ x.UpdateFramed seed ambient db t i m input := by
  intro hframed
  have hkey : (x.applyTo input (Orm.intoActiveModel m)).key = some k := (key_applyTo hm).trans hk
  obtain ⟨row, t', hupdate⟩ := Table.exists_updateOne hkey hadmits
  have hrun : (x.service seed).update ambient db m input t = .ok (row, t') := by
    unfold CrudService.update Repo.update
    rw [bind_eq_ok]
    exact ⟨(), Repo.conn_eq_ok.mpr hexec, hupdate⟩
  have hrows := hframed row t' hrun
  -- no update changes a key, so the row of key `i` has not got the input's
  have hkeys : t'.rows.map E.key = t.rows.map E.key := by
    rcases Table.updateOne_spec hupdate with ⟨-, rfl⟩ | ⟨id, -, heq⟩
    · rfl
    · rw [heq, List.map_map]
      refine List.map_congr_left fun s _ => ?_
      simp only [Function.comp_apply]
      split
      · exact ActiveModel.key_overwrite _ s
      · rfl
  rw [hrows, List.map_map] at hkeys
  have hsame := List.map_inj_left.mp hkeys m hmem
  simp only [Function.comp_apply, if_pos hm] at hsame
  rw [key_written hm, hk, hm] at hsame
  exact hne (Option.some.inj hsame)

/-- **The frame of an update**, exactly: it holds iff the update addresses the row it was authorized
for, or no row takes it. -/
theorem update_framed_iff (haccess : CrudService.access ambient .update i t = .ok (.found m)) :
    x.UpdateFramed seed ambient db t i m input ↔
      x.addressedKey i input = some i ∨ x.Refused ambient db t i m input := by
  obtain ⟨hexec, hfound, -⟩ := CrudService.access_eq_found.mp haccess
  obtain ⟨hmem, hm⟩ := Table.mem_of_findById hfound
  constructor
  · intro hframed
    by_contra hnot
    rw [not_or] at hnot
    refine hnot.2 fun k hk hadmits => ?_
    have hne : k ≠ i := fun heq => hnot.1 (heq ▸ hk)
    exact not_updateFramed hm hmem hexec hk hne hadmits hframed
  · rintro (htarget | hrefused)
    · exact updateFramed_of_target hm htarget
    · intro row t' h
      unfold CrudService.update Repo.update at h
      rw [bind_eq_ok] at h
      obtain ⟨-, -, h⟩ := h
      obtain ⟨k, hk, hadmits, -⟩ := Table.updateOne_eq_ok h
      exact absurd hadmits (hrefused k ((key_applyTo hm).symm.trans hk))

end Update

/-! ## The frame of a create -/

/-- An `INSERT` stores the values that are set. -/
def StoresSet (db : Backend E) : Prop :=
  ∀ {active : ActiveModel E} {t : Table E} {row : E.Row}, db.fill active t = .ok row →
    ∀ c ∈ E.columns, ∀ v, active.get c = .set v → row.get c = v

/-- **The frame of a create**: one row more, of a key no row had (the seeded one, where the key's
type is written `Uuid`), with the input's values in the create columns. -/
def CreateFramed (seed : Uuid) (ambient : Ambient) (db : Backend E) (t : Table E)
    (input : x.CreateInput) : Prop :=
  ∀ (row : E.Row) (t' : Table E), (x.service seed).create ambient db input t = .ok (row, t') →
    t'.rows = t.rows ++ [row] ∧ E.key row ∉ t.rows.map E.key ∧
      (∀ c, x.createColumn c = true → row.get c = input.get c) ∧
      ∀ c, x.seeded c = true → row.get c = .uuid (some seed)

variable {x}

/-- A create column is not the seeded one: fields have distinct names. -/
theorem createColumn_of_seeded {c : Column} (h : x.seeded c = true) :
    x.createColumn c = false := by
  unfold seeded at h
  split at h
  · rename_i pk hfind
    have hpk := List.find?_some hfind
    simp only [Bool.and_eq_true, beq_iff_eq] at h
    refine Bool.eq_false_iff.mpr fun hcreate => ?_
    obtain ⟨f, hf, hincluded, hident⟩ := Exposed.has_iff.mp hcreate
    have hsame : f = pk := List.inj_on_of_nodup_map x.nodup_fields hf
      (List.mem_of_find?_eq_some hfind) (hident.trans h.2.symm)
    subst hsame
    simp [hpk] at hincluded
  · cases h

theorem create_framed {seed : Uuid} {ambient : Ambient} {db : Backend E} (hstores : StoresSet db)
    {t : Table E} {input : x.CreateInput} : x.CreateFramed seed ambient db t input := by
  intro row t' h
  obtain ⟨hfill, hfresh, hrows⟩ := CrudService.create_spec h
  refine ⟨hrows, hfresh, fun c hc => ?_, fun c hc => ?_⟩
  · have hmem : c ∈ E.columns :=
      Exposed.mem_columns_of_has (fun f => Or.inl) (has_of_createColumn hc)
    refine hstores hfill c hmem _ ?_
    show (if x.createColumn c then ActiveValue.set (input.get c) else _) = _
    rw [if_pos hc]
  · have hmem : c ∈ E.columns := seeded_eq hc ▸ x.pk_mem
    refine hstores hfill c hmem _ ?_
    show (if x.createColumn c then ActiveValue.set (input.get c) else
      if x.seeded c then _ else _) = _
    rw [createColumn_of_seeded hc, hc]
    rfl

/-- **The frame of generated writes.** For every accepted declaration, caller and database state:
an update of a row that `access` authorized keeps to that row and to the columns marked
`input(update)` iff the input leaves it its key (in particular when the key is not an input of
updates) or no row takes the write; and a create adds one row, fresh, with its create columns. -/
theorem generated_writes_framed (x : ExposedEntity E) (seed : Uuid) (ambient : Ambient)
    (db : Backend E) (t : Table E) :
    (∀ (i : Uuid) (m : E.Row) (input : x.UpdateInput),
      CrudService.access ambient .update i t = .ok (.found m) →
      (x.UpdateFramed seed ambient db t i m input ↔
        x.addressedKey i input = some i ∨ x.Refused ambient db t i m input)) ∧
    (StoresSet db → ∀ input : x.CreateInput, x.CreateFramed seed ambient db t input) :=
  ⟨fun _ _ _ haccess => update_framed_iff haccess, fun hstores _ => create_framed hstores⟩

end ExposedEntity

/-! ## A user whose id is an input

Both columns of the user are marked `input(create, update)`. -/

theorem columns_userEntity : ["id", "org_id"] = userEntity.columns := rfl

/-- Every field is an input. -/
def openUser : ExposedEntity userEntity where
  args := [.name "User"]
  ident := "Model"
  items := [⟨"id", uuidType, true, [.input ["create", "update"]]⟩,
    ⟨"org_id", uuidType, false, [.input ["create", "update"]]⟩]
  model := ⟨"Model", "User", "CreateUserInput", "UpdateUserInput", "UserPage",
    [⟨"id", uuidType, false, true, true, true, []⟩,
      ⟨"org_id", uuidType, false, true, true, false, []⟩], false, false⟩
  accepted := rfl
  nodup := by
    show ["id", "org_id"].Nodup
    decide
  columns := columns_userEntity
  variants f hf _ := by
    simp only [List.mem_cons, List.not_mem_nil, or_false] at hf
    rcases hf with rfl | rfl
    · rfl
    · rfl
  relations f hf hcolumn := by
    simp only [List.mem_cons, List.not_mem_nil, or_false] at hf
    rcases hf with rfl | rfl
    · cases hcolumn
    · cases hcolumn
  uuidToString := hyphenated
  uuid f hf _ := by
    simp only [List.mem_cons, List.not_mem_nil, or_false] at hf
    rcases hf with rfl | rfl
    · exact ⟨rfl, rfl, fun u => by simp [uuidType, parseHyphenated_hyphenated]⟩
    · exact ⟨rfl, rfl, fun u => by simp [uuidType, parseHyphenated_hyphenated]⟩
  pk f hf hpk := by
    simp only [List.mem_cons, List.not_mem_nil, or_false] at hf
    rcases hf with rfl | rfl
    · rfl
    · cases hpk
  pk_mem := List.mem_cons_self

/-- The input that gives these values. -/
def openInput (id org : Uuid) : openUser.UpdateInput where
  get := (user id org).get
  typed f hf _ := by
    simp only [openUser, List.mem_cons, List.not_mem_nil, or_false] at hf
    rcases hf with rfl | rfl
    · exact ⟨rfl, fun _ => rfl⟩
    · exact ⟨rfl, fun _ => rfl⟩

/-- The same for a create. -/
def openCreate (id org : Uuid) : openUser.CreateInput where
  get := (user id org).get
  typed f hf _ := by
    simp only [openUser, List.mem_cons, List.not_mem_nil, or_false] at hf
    rcases hf with rfl | rfl
    · exact ⟨rfl, fun _ => rfl⟩
    · exact ⟨rfl, fun _ => rfl⟩

def bob : Uuid := 0x00000000000070008000000000000002
def carol : Uuid := 0x00000000000070008000000000000003

/-- Two users of one organisation. -/
def twoUsers : Table userEntity where
  rows := [user alice acme, user bob acme]
  keyed := by decide
  distinct := by decide

/-- A caller who may do anything with the users. -/
def usersAdmin : Ambient := ⟨true, some (buildAbility [RuleSpec.can .manage 0])⟩

theorem access_alice :
    CrudService.access usersAdmin .update alice twoUsers = .ok (.found (user alice acme)) := rfl

theorem storesSet_usersDb : ExposedEntity.StoresSet usersDb := by
  intro active t row h c _ v hset
  cases h
  show (active.get c).value.getD _ = v
  rw [hset]
  rfl

/-- An update that gives the user its own id is framed, and so is a create: the new user gets the
seeded id, whatever id its input gives. -/
theorem own_id_framed :
    openUser.UpdateFramed alice usersAdmin usersDb twoUsers alice (user alice acme)
        (openInput alice globex) ∧
      ((openUser.service carol).create usersAdmin usersDb (openCreate bob globex) twoUsers).map
          (fun out => out.2.rows.map fun r => (r.get "id", r.get "org_id")) =
        .ok [(.uuid (some alice), .uuid (some acme)), (.uuid (some bob), .uuid (some acme)),
          (.uuid (some carol), .uuid (some globex))] ∧
      openUser.CreateFramed carol usersAdmin usersDb twoUsers (openCreate bob globex) := by
  refine ⟨?_, by rfl, ?_⟩
  · exact ((openUser.generated_writes_framed alice usersAdmin usersDb twoUsers).1 alice
      (user alice acme) (openInput alice globex) access_alice).mpr (Or.inl rfl)
  · exact (openUser.generated_writes_framed carol usersAdmin usersDb twoUsers).2 storesSet_usersDb
      (openCreate bob globex)

/-- Authorized for one user, an update whose input gives another's id moves the other one. -/
theorem other_id_unframed :
    CrudService.access usersAdmin .update alice twoUsers = .ok (.found (user alice acme)) ∧
      ((openUser.service alice).update usersAdmin usersDb (user alice acme) (openInput bob globex)
        twoUsers).map (fun out => out.2.rows.map fun r => (r.get "id", r.get "org_id")) =
        .ok [(.uuid (some alice), .uuid (some acme)), (.uuid (some bob), .uuid (some globex))] ∧
      ¬ openUser.UpdateFramed alice usersAdmin usersDb twoUsers alice (user alice acme)
        (openInput bob globex) := by
  refine ⟨rfl, by rfl, ?_⟩
  refine ExposedEntity.not_updateFramed (k := bob) rfl List.mem_cons_self rfl rfl (by decide) ?_
  exact ⟨user bob acme, rfl, rfl⟩

end Nestrs.Resource
