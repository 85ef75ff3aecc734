import Nestrs.Crud.Reads

/-!
# Field masking of generated reads

What the reading operations of `#[crud]` show of a row. A grant may be restricted to some columns
(`RuleSpec::fields`); `permitted_fields` is the union over the grants that match a row, and the
fields of a row outside it are to be kept from the caller.

On REST the `Authorize` shaper masks every successful body: it parses the output object back into a
model and keeps the keys permitted on that model. On GraphQL nothing masks: the resolver returns the
output object, and every field of it can be selected. (async-graphql renders a field under its
camel-case name; the model keeps the column's.)

Results:
* `mem_shownColumns_mask`: the columns a masked model shows;
* `maskSound_of_roundTrip`: where rows parse back as they were, REST masks exactly;
* **`field_masking`**: on each surface, when every read shows permitted columns only.
-/

namespace Nestrs.Crud

open Nestrs.Lib Nestrs.Authz Nestrs.Orm Nestrs.Http

variable {σ : Schema} {E : Entity σ}

/-! ## The contract -/

/-- The field set lets the column through. -/
def Permits : FieldSet → Column → Prop
  | .all, _ => True
  | .only cols, c => c ∈ cols

instance (fields : FieldSet) (c : Column) : Decidable (Permits fields c) :=
  match fields with
  | .all => inferInstanceAs (Decidable True)
  | .only cols => inferInstanceAs (Decidable (c ∈ cols))

/-- The columns of the entity that a JSON object shows. -/
def shownColumns (E : Entity σ) : Json → List Column
  | .object map => (map.map Prod.fst).filter fun c => c ∈ E.columns
  | _ => []

/-- The items of a response. -/
def Payload.items : Payload E → List (Item E)
  | rows items _ => items
  | row item => [item]

/-- The items an operation returns. -/
def GraphqlData.items : GraphqlData E → List (Item E)
  | rows items => items
  | row item => item.toList
  | flag _ => []

/-- Of each item's row, the ability on the request permits the columns the item shows. -/
def Masked (attached : Option Ability) (items : List (Item E)) : Prop :=
  ∀ i ∈ items, ∃ ability, attached = some ability ∧
    ∀ c ∈ shownColumns E i.json, Permits (ability.permittedFields .read i.row) c

section Contract

variable {ρ : Type} (surface : Surface E) (db : Backend E) (txn : Txn) (executor : Bool)
  (guards : List (Guard ρ)) (opGuard : Option (OperationGuard ρ)) (req : Request ρ)

/-- **The masking contract of REST**, at every database state. -/
def RestMasked : Prop :=
  ∀ (op : RestOp surface) (t : Table E) (status : Nat) (payload : Payload E), op.action = .read →
    (serveRest surface db txn executor guards req op t).1 = .ok ⟨status, .json payload⟩ →
    Masked (restAbility guards req) payload.items

/-- **The masking contract of GraphQL**, at every database state, in every batch and whatever comes
of the transaction. -/
def GraphqlMasked : Prop :=
  ∀ (txn : Txn) (ops : List (GraphqlOp surface)) (t : Table E) (status : Nat)
    (results : List (Except GraphqlError (GraphqlData E))),
    (serveGraphql surface db txn executor guards opGuard req (.ok ops) t).1 =
      .ok ⟨status, .json results⟩ →
    ∀ entry ∈ ops.zip results, entry.1.isRead = true → ∀ data, entry.2 = .ok data →
      Masked (graphqlAbility guards opGuard req) data.items

end Contract

/-- A REST read can return the row, parsed back as the model: a list when the filter keeps the row
and the shaper the model, a get when the row passes the instance check. -/
def RestReturns (db : Backend E) (ability : Ability) (r model : E.Row) : Prop :=
  ((ability.conditionFor .read E.type).Keeps db.sql r.get ∧ ability.can .read model = true) ∨
    ∃ id, E.key r = some id ∧ versionNum id = 7 ∧ ability.can .read r = true

/-- Parsing a row back lifts no restriction: a column permitted on the model that a returned row is
parsed back as is permitted on the row. -/
def MaskSound (surface : Surface E) (db : Backend E) (ability : Ability) : Prop :=
  ∀ r model : E.Row, (E.key r).isSome = true →
    surface.deserialize (surface.output r) = some model → RestReturns db ability r model →
    ∀ c ∈ shownColumns E ((surface.serialize model).getD .null),
      Permits (ability.permittedFields .read model) c → Permits (ability.permittedFields .read r) c

/-- A GraphQL read can return the row: a list when the gate passes and the ambient scope keeps it,
a get when its id can be written and the ambient ability accepts it. -/
def GraphqlReturns (surface : Surface E) (db : Backend E) (ctx : Option Ability)
    (ambient : Ambient) (r : E.Row) : Prop :=
  ((∃ ability, ctx = some ability ∧ ability.canClass .read E.type = true) ∧
      (scopeFor ambient .read E.type).Keeps db.sql r.get) ∨
    ∃ id text ability, E.key r = some id ∧ parseId surface text = .ok id ∧
      ambient.ability = some ability ∧ ability.can .read r = true

/-- Every column the output exposes of a returned row is permitted. -/
def OutputPermitted (surface : Surface E) (db : Backend E) (ctx : Option Ability)
    (ambient : Ambient) : Prop :=
  ∀ r : E.Row, (E.key r).isSome = true → GraphqlReturns surface db ctx ambient r →
    ∀ ability, ctx = some ability → ∀ c ∈ shownColumns E (surface.output r),
      Permits (ability.permittedFields .read r) c

/-! ## One item -/

/-- **A masked model** shows the columns it serializes that are permitted on it. -/
theorem mem_shownColumns_mask {serialize : E.Row → Option Json} {ability : Ability}
    {action : Action} {model : E.Row} {c : Column} :
    c ∈ shownColumns E (ability.mask serialize action model) ↔
      c ∈ shownColumns E ((serialize model).getD .null) ∧
        Permits (ability.permittedFields action model) c := by
  unfold Ability.mask
  cases hfields : ability.permittedFields action model with
  | all => exact ⟨fun hc => ⟨hc, trivial⟩, fun hc => hc.1⟩
  | only allowed =>
    cases hjson : (serialize model).getD .null with
    | object map =>
      simp only [shownColumns, Permits, List.mem_filter, List.mem_map]
      constructor
      · rintro ⟨⟨kv, ⟨hkv, hallowed⟩, rfl⟩, hcol⟩
        exact ⟨⟨⟨kv, hkv, rfl⟩, hcol⟩, of_decide_eq_true hallowed⟩
      · rintro ⟨⟨⟨kv, hkv, rfl⟩, hcol⟩, hallowed⟩
        exact ⟨⟨kv, ⟨hkv, decide_eq_true hallowed⟩, rfl⟩, hcol⟩
    | null => simp [shownColumns]
    | bool b => simp [shownColumns]
    | number text => simp [shownColumns]
    | string s => simp [shownColumns]
    | array items => simp [shownColumns]

section Items

variable {surface : Surface E} {db : Backend E} {t t' : Table E}

/-- The items of a REST read are permitted where parsing back lifts no restriction. -/
theorem handle_masked {ability : Ability} {executor : Bool} {op : RestOp surface}
    (hread : op.action = .read) (hsound : executor = true → MaskSound surface db ability)
    {resp : Response (Payload E)}
    (h : handle surface db (some ability) ⟨executor, some ability⟩ op t = .ok (resp, t'))
    {status : Nat} {payload : Payload E}
    (hmask : maskResponse surface ability op.action resp = ⟨status, .json payload⟩) :
    Masked (some ability) payload.items := by
  -- an item that is masked as its row was parsed back
  have hitem : ∀ (r model : E.Row), executor = true → (E.key r).isSome = true →
      surface.deserialize (surface.output r) = some model → RestReturns db ability r model →
      ∀ c ∈ shownColumns E (ability.mask surface.serialize .read model),
        Permits (ability.permittedFields .read r) c := by
    intro r model hexec hkey hparse hreturns c hc
    obtain ⟨hcol, hpermits⟩ := mem_shownColumns_mask.mp hc
    exact hsound hexec r model hkey hparse hreturns c hcol hpermits
  rw [hread] at hmask
  rcases handle_read hread h with ⟨rows, cursor, rfl, hrows⟩ | ⟨r, id, rfl, hversion, hfound⟩
  · obtain ⟨items, rfl, hitems⟩ := maskResponse_rows hmask
    intro i hi
    obtain ⟨hrow, model, hparse, hcan, hjson⟩ := hitems i hi
    obtain ⟨hexec, hselect⟩ := hrows i.row hrow
    obtain ⟨hkey, hkeeps⟩ := mem_select_ambient rfl hselect
    rw [hjson]
    exact ⟨ability, rfl, hitem i.row model hexec hkey hparse (Or.inl ⟨hkeeps, hcan⟩)⟩
  · obtain ⟨model, hparse, rfl⟩ := maskResponse_row hmask
    obtain ⟨hexec, hrow, ability', hability, hcan⟩ := CrudService.access_eq_found.mp hfound
    cases hability
    obtain ⟨hmem, hkey⟩ := Table.mem_of_findById hrow
    intro i hi
    obtain rfl := List.mem_singleton.mp hi
    exact ⟨ability, rfl, hitem r model hexec (t.keyed r hmem) hparse
      (Or.inr ⟨id, hkey, hversion, hcan⟩)⟩

/-- The items of a GraphQL read are permitted where the output exposes permitted columns only. -/
theorem resolve_masked {ctx : Option Ability} {ambient : Ambient} {op : GraphqlOp surface}
    {data : GraphqlData E} (hread : op.isRead = true)
    (hcaller : ∀ ability, ambient.ability = some ability → ctx = some ability)
    (hpermitted : ambient.executor = true → OutputPermitted surface db ctx ambient)
    (h : resolve surface db ctx ambient op t = .ok (data, t')) : Masked ctx data.items := by
  cases op with
  | list =>
    obtain ⟨⟨hgate, hexec⟩, rfl, -⟩ := resolve_list_eq_ok.mp h
    obtain ⟨ability, hctx, hclass⟩ := authorize_eq_ok.mp hgate
    intro i hi
    obtain ⟨r, hr, rfl⟩ := List.mem_map.mp hi
    obtain ⟨hmem, hkeeps⟩ := Table.mem_select.mp hr
    exact ⟨ability, hctx, hpermitted hexec r (t.keyed r hmem)
      (Or.inl ⟨⟨ability, hctx, hclass⟩, hkeeps⟩) ability hctx⟩
  | get id =>
    obtain ⟨uuid, hid, ⟨-, h⟩ | ⟨model, hfound, h⟩⟩ := bindRow_eq_ok h
    · cases h
      exact fun i hi => absurd hi List.not_mem_nil
    · cases h
      obtain ⟨hexec, hrow, ability, hability, hcan⟩ := CrudService.access_eq_found.mp hfound
      obtain ⟨hmem, hkey⟩ := Table.mem_of_findById hrow
      intro i hi
      obtain rfl := List.mem_singleton.mp hi
      have hctx := hcaller ability hability
      exact ⟨ability, hctx, hpermitted hexec model (t.keyed model hmem)
        (Or.inr ⟨uuid, id, ability, hkey, hid, hability, hcan⟩) ability hctx⟩
  | create input => exact nomatch hread
  | update id input => exact nomatch hread
  | delete id => exact nomatch hread

end Items

section Wiring

variable {ρ : Type} {surface : Surface E} {db : Backend E} {txn : Txn} {executor : Bool}
  {guards : List (Guard ρ)} {opGuard : Option (OperationGuard ρ)} {req : Request ρ}

/-! ## GraphQL -/

/-- A query that returns the item of a row of a one-row table. -/
theorem exists_resolve_single {ctx : Option Ability} {ambient : Ambient}
    (hexec : ambient.executor = true) {r : E.Row} (hkey : (E.key r).isSome = true)
    (h : GraphqlReturns surface db ctx ambient r) :
    ∃ op : GraphqlOp surface, op.isRead = true ∧ ∃ data : GraphqlData E,
      item surface r ∈ data.items ∧
      resolve surface db ctx ambient op (Table.single r hkey) =
        .ok (data, Table.single r hkey) := by
  rcases h with ⟨hgate, hkeeps⟩ | ⟨id, text, ability, hid, htext, hability, hcan⟩
  · refine ⟨.list, rfl, _, ?_,
      resolve_list_eq_ok.mpr ⟨⟨authorize_eq_ok.mpr hgate, hexec⟩, rfl, rfl⟩⟩
    rw [Table.select_single hkey hkeeps]
    exact List.mem_singleton_self _
  · refine ⟨.get text, rfl, .row (some (item surface r)), List.mem_singleton_self _, ?_⟩
    have haccess : CrudService.access ambient .read id (Table.single r hkey) = .ok (.found r) :=
      CrudService.access_eq_found.mpr
        ⟨hexec, Table.findById_single hkey hid, ability, hability, hcan⟩
    unfold resolve bindRow
    exact bind_eq_ok.mpr ⟨id, htext, bind_eq_ok.mpr ⟨_, mapError_eq_ok.mpr haccess, rfl⟩⟩

/-- **When GraphQL reads are masked.** -/
theorem graphqlMasked_iff :
    GraphqlMasked surface db executor guards opGuard req ↔
      ((runGuards guards req).2 = .ok () → executor = true →
        OutputPermitted surface db (graphqlAbility guards opGuard req)
          (graphqlAmbient executor guards opGuard req)) := by
  constructor
  · intro h hrun hexec r hkey hreturns ability hctx
    obtain ⟨op, hread, data, hitem, hres⟩ := exists_resolve_single hexec hkey hreturns
    obtain ⟨ability', hctx', hpermits⟩ := h .succeeding [op] _ 200 _
      (serveGraphql_fst hrun [op] _) (op, _) (List.mem_singleton_self _) hread data
      (by rw [hres]; rfl) _ hitem
    rw [hctx] at hctx'
    cases hctx'
    exact hpermits
  · intro h txn ops t status results hresp entry hentry hread data hdata
    have hend : (endpoint surface db executor guards opGuard req (.ok ops) t).1 =
        .ok ⟨status, .json results⟩ := intercept_fst_ok hresp
    cases hrun : (runGuards guards req).2 with
    | error refusal =>
      rw [endpoint_of_refused hrun] at hend
      exact nomatch hend
    | ok u =>
      rcases endpoint_of_passed hrun (.ok ops) with ⟨e, hops, -⟩ | ⟨ops', hops, heq⟩
      · exact nomatch hops
      · cases hops
        rw [heq] at hend
        cases hend
        obtain ⟨s, hs⟩ := mem_zip_execute hentry
        rw [hs, map_eq_ok] at hdata
        obtain ⟨⟨data', s'⟩, hres, rfl⟩ := hdata
        exact resolve_masked hread (fun ability => graphqlAmbient_caller) (h hrun) hres

/-! ## REST -/

theorem maskSound_of_masked (h : RestMasked surface db txn executor guards req)
    (hrun : (runGuards guards req).2 = .ok ()) (hexec : executor = true) {ability : Ability}
    (hability : restAbility guards req = some ability) : MaskSound surface db ability := by
  intro r model hkey hparse hreturns c hcol hpermits
  have hc : c ∈ shownColumns E (ability.mask surface.serialize .read model) :=
    mem_shownColumns_mask.mpr ⟨hcol, hpermits⟩
  -- the row alone in the table, read by the operation that returns it
  have hmasked : Masked (restAbility guards req)
      [⟨r, ability.mask surface.serialize .read model⟩] := by
    rcases hreturns with ⟨hkeeps, hcan⟩ | ⟨id, hid, hversion, hcan⟩
    · have hlist : (route surface db executor guards req .list (Table.single r hkey)).1 = _ :=
        route_list hrun hexec hability (canClass_of_keeps hkeeps) (Table.single r hkey)
      rw [Table.select_single hkey hkeeps, maskResponse_singleton hparse hcan] at hlist
      exact h .list _ 200 _ rfl hlist
    · have hget : (route surface db executor guards req (.get (.ok id))
          (Table.single r hkey)).1 = _ :=
        route_get hrun hability hversion (CrudService.access_eq_found.mpr
          ⟨hexec, Table.findById_single hkey hid, ability, rfl, hcan⟩)
      have hmask : maskResponse surface ability .read ⟨200, .json (.row (item surface r))⟩ =
          ⟨200, .json (.row ⟨r, ability.mask surface.serialize .read model⟩)⟩ := by
        simp [maskResponse, isSuccess, item, hparse]
      rw [hmask] at hget
      exact h (.get (.ok id)) _ 200 _ rfl hget
  obtain ⟨ability', hability', hpermits'⟩ := hmasked _ (List.mem_singleton_self _)
  rw [hability] at hability'
  cases hability'
  exact hpermits' c hc

/-- **When REST reads are masked.** -/
theorem restMasked_iff :
    RestMasked surface db txn executor guards req ↔
      ((runGuards guards req).2 = .ok () → executor = true →
        ∀ ability, restAbility guards req = some ability → MaskSound surface db ability) := by
  constructor
  · intro h hrun hexec ability hability
    exact maskSound_of_masked h hrun hexec hability
  · intro h op t status payload hread hresp
    obtain ⟨hrun, ability, hability, resp, t', hhandle, hmask⟩ :=
      route_eq_json (intercept_fst_ok hresp)
    rw [hability]
    exact handle_masked hread (fun hexec => h hrun hexec ability hability) hhandle hmask

/-- Where a row is parsed back as it was, the mask is that of the stored row. -/
theorem maskSound_of_roundTrip {ability : Ability}
    (h : ∀ r model, surface.deserialize (surface.output r) = some model → model = r) :
    MaskSound surface db ability := by
  intro r model _ hparse _ c _ hpermits
  rw [← h r model hparse]
  exact hpermits

/-- An ability whose grants on the entity are not restricted to columns permits every column of the
rows it may read. -/
theorem outputPermitted_of_unrestricted {ctx : Option Ability} {ambient : Ambient}
    (h : ∀ ability, ctx = some ability → ∀ r : E.Row, ability.permittedFields .read r = .all) :
    OutputPermitted surface db ctx ambient := by
  intro r _ _ ability hctx c _
  rw [h ability hctx r]
  trivial

end Wiring

/-- **Field masking of generated reads.** For every wiring of guards and every request: the columns
that REST lists, pages and gets show of a row, at every database state, are permitted on it iff
parsing a returned row back lifts no restriction; and those that GraphQL lists and gets show are iff
every column the output exposes is permitted on every row they can return. -/
theorem field_masking {ρ : Type} (surface : Surface E) (db : Backend E) (txn : Txn)
    (executor : Bool) (guards : List (Guard ρ)) (opGuard : Option (OperationGuard ρ))
    (req : Request ρ) :
    (RestMasked surface db txn executor guards req ↔
        ((runGuards guards req).2 = .ok () → executor = true →
          ∀ ability, restAbility guards req = some ability → MaskSound surface db ability)) ∧
      (GraphqlMasked surface db executor guards opGuard req ↔
        ((runGuards guards req).2 = .ok () → executor = true →
          OutputPermitted surface db (graphqlAbility guards opGuard req)
            (graphqlAmbient executor guards opGuard req))) :=
  ⟨restMasked_iff, graphqlMasked_iff⟩

/-! ## A directory of ids -/

/-- A caller may read the ids of the users of its organisation, and no other column. -/
def directoryRules (org : Uuid) : List RuleSpec :=
  [((RuleSpec.can .read 0).when (.eq "org_id" (.uuid (some org)))).withFields ["id"]]

def directoryGuard : Guard Uuid := abilityGuard some directoryRules

/-- Under `GraphqlAbilityBridge`, a list of users shows the organisation of each. -/
theorem graphql_list_unmasked :
    ¬ GraphqlMasked usersSurface usersDb true []
      (some (graphqlAbilityBridge (fun req => (req, .ok ())) directoryGuard)) ⟨none, acme⟩ := by
  intro h
  have hresp : (serveGraphql usersSurface usersDb .succeeding true []
      (some (graphqlAbilityBridge (fun req => (req, .ok ())) directoryGuard)) ⟨none, acme⟩
      (.ok [.list]) (Table.single (user alice acme) rfl)).1 =
        .ok ⟨200, .json [.ok (.rows [item usersSurface (user alice acme)])]⟩ := rfl
  obtain ⟨ability, hability, hpermits⟩ := h .succeeding [.list] _ 200 _ hresp (.list, _)
    (List.mem_singleton_self _) rfl _ rfl (item usersSurface (user alice acme))
    (List.mem_singleton_self _)
  cases hability
  exact absurd (hpermits "org_id" (by decide)) (by decide)

end Nestrs.Crud
