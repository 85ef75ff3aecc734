import Nestrs.Http.Pipeline
import Nestrs.Orm.Service

/-!
# The generated REST operations

Model of the controller methods `#[crud]` emits (`crates/nestrs-http-macros/src/crud.rs`) and of
what `#[routes]` puts around them: the route's guards, and inside these the `Authorize` shaper
(`crates/nestrs-authz-http/src/shape.rs`, `crates/nestrs-http/src/shaper.rs`). The shaper installs
the ability on the request as ambient state, runs the extractors and the handler, and masks a
successful JSON body: it parses the body back into models, drops the rows of a list that `can`
rejects and strips fields.

A body item keeps the stored row it shows, next to its JSON. The conversions to and from JSON are
parameters (`Surface`); a path id, query or body arrives as its extractor read it, or as the error
the extractor answers with. An operation that fails has written nothing.

Results:
* `authorizeRequest_eq_ok`, `withAccess_eq_ok`: what an operation that gets past its gate, or past
  its by-id load, has checked.
-/

namespace Nestrs.Crud

open Nestrs.Lib Nestrs.Authz Nestrs.Orm Nestrs.Http

/-- `Uuid::get_version_num`: the high four bits of the seventh byte. -/
def versionNum (id : Uuid) : Nat := (id.extractLsb 79 76).toNat

/-- The service of an entity and the conversions of its output type. -/
structure Surface {σ : Schema} (E : Entity σ) where
  service : CrudService E
  /-- `#output::from`, serialized. -/
  output : E.Row → Json
  /-- `serde_json::from_slice` into `E::Model`. -/
  deserialize : Json → Option E.Row
  /-- `serde_json::to_value` of `E::Model`. -/
  serialize : E.Row → Option Json
  /-- `Uuid::parse_str`, with the text of its error. -/
  parseUuid : String → Except String Uuid

/-- One row of a response: the stored row it shows and its JSON. -/
structure Item {σ : Schema} (E : Entity σ) where
  row : E.Row
  json : Json

/-- What a response carries. -/
inductive Payload {σ : Schema} (E : Entity σ) where
  | rows (items : List (Item E)) (nextCursor : Option Uuid)
  | row (item : Item E)

/-- The rows a response shows. -/
def Payload.shown {σ : Schema} {E : Entity σ} : Payload E → List E.Row
  | rows items _ => items.map Item.row
  | row item => [item.row]

/-- `PageParams`. -/
structure PageParams where
  first : Option Nat
  after : Option String

variable {σ : Schema} {E : Entity σ}

/-- `PageParams::limit`. -/
def PageParams.limit (params : PageParams) : Nat := Repo.clamp (params.first.getD 20)

/-- `PageParams::after_uuid`. -/
def PageParams.afterUuid (params : PageParams) (surface : Surface E) : Option Uuid :=
  params.after.bind fun s => (surface.parseUuid s).toOption

/-- A request to one of the generated operations, its arguments as extracted. -/
inductive RestOp (surface : Surface E) where
  | list
  | page (query : Except PoemError PageParams)
  | get (id : Except PoemError Uuid)
  | create (body : Except PoemError surface.service.Create)
  | update (id : Except PoemError Uuid) (body : Except PoemError surface.service.Update)
  | delete (id : Except PoemError Uuid)

namespace RestOp

variable {surface : Surface E}

/-- The method of the route. -/
def method : RestOp surface → Method
  | list | page _ | get _ => .get
  | create _ => .post
  | update _ _ => .patch
  | delete _ => .delete

/-- The action of the operation's `Authorize` parameter. -/
def action : RestOp surface → Action
  | list | page _ | get _ => .read
  | create _ => .create
  | update _ _ => .update
  | delete _ => .delete

end RestOp

/-- `Authorize::from_request`. -/
def authorizeRequest (ability : Option Ability) (action : Action) (subject : TypeId) :
    Except PoemError Unit :=
  match ability with
  | none => .error ⟨500, "missing request `Ability` — is the ability guard applied to this route?"⟩
  | some ability =>
    if ability.canClass action subject then .ok () else .error ⟨403, "forbidden"⟩

/-- `__nestrs_crud_internal`. -/
def internal (e : DbErr) : PoemError := ⟨500, e.toString⟩

/-- `id_v7_check`. -/
def idV7Check (id : Uuid) : Except PoemError Unit :=
  if versionNum id = 7 then .ok () else .error ⟨400, "path id must be a UUID v7"⟩

section Handle

variable (surface : Surface E) (db : Backend E)

/-- The item a row is shown as. -/
def item (r : E.Row) : Item E := ⟨r, surface.output r⟩

/-- The by-id load of a generated method, and what it does with the row it finds. -/
def withAccess (ambient : Ambient) (action : Action) (id : Uuid) (t : Table E)
    (found : E.Row → Except PoemError (Response (Payload E) × Table E)) :
    Except PoemError (Response (Payload E) × Table E) := do
  idV7Check id
  match ← (CrudService.access ambient action id t).mapError internal with
  | .found model => found model
  | .denied => .error ⟨403, ""⟩
  | .missing => .error ⟨404, ""⟩

/-- The wrapper of a generated method: its extractors in order, then its body. -/
def handle (ability : Option Ability) (ambient : Ambient) (op : RestOp surface) (t : Table E) :
    Except PoemError (Response (Payload E) × Table E) := do
  authorizeRequest ability op.action E.type
  match op with
  | .list =>
    let rows ← (CrudService.list ambient db t).mapError internal
    .ok (⟨200, .json (.rows (rows.map (item surface)) none)⟩, t)
  | .page query =>
    let params ← query
    let p ← (CrudService.page ambient db params.limit (params.afterUuid surface) t).mapError
      internal
    .ok (⟨200, .json (.rows (p.items.map (item surface)) p.nextCursor)⟩, t)
  | .get id =>
    let id ← id
    withAccess ambient .read id t fun model =>
      .ok (⟨200, .json (.row (item surface model))⟩, t)
  | .create body =>
    let input ← body
    let (row, t) ← (surface.service.create ambient db input t).mapError internal
    .ok (⟨200, .json (.row (item surface row))⟩, t)
  | .update id body =>
    let id ← id
    let input ← body
    withAccess ambient .update id t fun model => do
      let (row, t) ← (surface.service.update ambient db model input t).mapError internal
      .ok (⟨200, .json (.row (item surface row))⟩, t)
  | .delete id =>
    let id ← id
    withAccess ambient .delete id t fun model => do
      let t ← (CrudService.delete ambient db model t).mapError internal
      .ok (⟨204, .empty⟩, t)

/-- The items of a list, parsed back. -/
def reparse (items : List (Item E)) : Option (List (E.Row × E.Row)) :=
  items.mapM fun i => (surface.deserialize i.json).map fun model => (i.row, model)

/-- `mask_response`. -/
def maskResponse (ability : Ability) (action : Action) (resp : Response (Payload E)) :
    Response (Payload E) :=
  if !isSuccess resp.status then resp
  else match resp.body with
    | .json (.rows items nextCursor) =>
      match reparse surface items with
      | some models => { resp with
          body := .json (.rows ((models.filter fun m => ability.can action m.2).map fun m =>
            ⟨m.1, ability.mask surface.serialize action m.2⟩) nextCursor) }
      | none => ⟨500, .text
          "response masking failed: body did not match the authorized subject type"⟩
    | .json (.row i) =>
      match surface.deserialize i.json with
      | some model => { resp with
          body := .json (.row ⟨i.row, ability.mask surface.serialize action model⟩) }
      | none => ⟨500, .text
          "response masking failed: body did not match the authorized subject type"⟩
    | _ => resp

/-- `ShapedEndpoint::call` with `Authorize`'s `capture` and `run`. -/
def shaped {ρ : Type} (executor : Bool) (req : Request ρ) (op : RestOp surface) (t : Table E) :
    Except PoemError (Response (Payload E) × Table E) :=
  match req.ability with
  | some ability => do
    let (resp, t) ← handle surface db req.ability ⟨executor, some ability⟩ op t
    .ok (maskResponse surface ability op.action resp, t)
  | none => handle surface db req.ability ⟨executor, none⟩ op t

/-- The route: its guards, then the shaped handler. -/
def route {ρ : Type} (executor : Bool) (guards : List (Guard ρ)) (req : Request ρ)
    (op : RestOp surface) (t : Table E) : Except PoemError (Response (Payload E)) × Table E :=
  match runGuards guards req with
  | (_, .error refusal) => (.ok ⟨refusal.status, .text refusal.message⟩, t)
  | (req, .ok ()) =>
    match shaped surface db executor req op t with
    | .ok (resp, t) => (.ok resp, t)
    | .error e => (.error e, t)

end Handle

/-! ## What has been checked -/

theorem authorizeRequest_eq_ok {attached : Option Ability} {action : Action} {subject : TypeId}
    {u : Unit} :
    authorizeRequest attached action subject = .ok u ↔
      ∃ ability, attached = some ability ∧ ability.canClass action subject = true := by
  unfold authorizeRequest
  constructor
  · intro h
    cases attached with
    | none => exact nomatch h
    | some ability =>
      simp only at h
      split at h
      · rename_i hclass
        exact ⟨ability, rfl, hclass⟩
      · exact nomatch h
  · rintro ⟨ability, rfl, hclass⟩
    exact if_pos hclass

section Access

variable {ambient : Ambient} {t : Table E}

theorem withAccess_eq_ok {action : Action} {id : Uuid}
    {found : E.Row → Except PoemError (Response (Payload E) × Table E)}
    {out : Response (Payload E) × Table E} (h : withAccess ambient action id t found = .ok out) :
    ∃ model, versionNum id = 7 ∧ CrudService.access ambient action id t = .ok (.found model) ∧
      found model = .ok out := by
  unfold withAccess at h
  rw [bind_eq_ok] at h
  obtain ⟨u, hversion, h⟩ := h
  rw [bind_eq_ok] at h
  obtain ⟨access, haccess, h⟩ := h
  rw [mapError_eq_ok] at haccess
  have hseven : versionNum id = 7 := by
    unfold idV7Check at hversion
    split at hversion
    · assumption
    · exact nomatch hversion
  cases access with
  | found model => exact ⟨model, hseven, haccess, h⟩
  | denied => exact nomatch h
  | missing => exact nomatch h

end Access

end Nestrs.Crud
