import Nestrs.Crud.Writes

/-!
# The scope of generated reads

What the reading operations of `#[crud]` show a caller. A get loads its row and checks it. A list
or a page passes the class gate and relies on the condition that `Repo` adds to its query, and
`Repo` takes that condition from the ambient ability: with none it adds nothing.

On REST the ambient ability is the one on the request, by the shaper. On GraphQL the gate reads the
ability in the context, which the request's extensions supply, while the ambient one is there only
if an `OperationGuard` is bound and installs it. With an ability attached by a guard of the
transport and no `OperationGuard`, the gate passes and the query is unscoped.

Results:
* `resolve_readable`, `handle_readable`: the rows a read shows, when the filter is the caller's;
* **`read_scope`**: when every read of a wiring shows rows the caller may read, on each surface;
* `filterSound_of_typed`: the filter is sound for every ability built from typed statements.
-/

namespace Nestrs.Crud

open Nestrs.Lib Nestrs.Authz Nestrs.Orm Nestrs.Http

variable {σ : Schema} {E : Entity σ}

/-! ## The contract -/

/-- The ability on the request may read each of the rows; without an ability there is none. -/
def RowsReadable (attached : Option Ability) (rows : List E.Row) : Prop :=
  ∀ r ∈ rows, ∃ ability, attached = some ability ∧ ability.can .read r = true

/-- The rows the ability's filter keeps are ones it may read. -/
def FilterSound (db : Backend E) (ability : Ability) : Prop :=
  ∀ r : E.Row, (E.key r).isSome = true →
    (ability.conditionFor .read E.type).Keeps db.sql r.get → ability.can .read r = true

/-- The same, of the rows that the shaper lets through once it has parsed them back. -/
def ShapedSound (surface : Surface E) (db : Backend E) (ability : Ability) : Prop :=
  ∀ (r model : E.Row), (E.key r).isSome = true →
    (ability.conditionFor .read E.type).Keeps db.sql r.get →
    surface.deserialize (surface.output r) = some model → ability.can .read model = true →
    ability.can .read r = true

/-- The operation is a query. -/
def GraphqlOp.isRead {surface : Surface E} : GraphqlOp surface → Bool
  | list | get _ => true
  | _ => false

section Contract

variable {ρ : Type} (surface : Surface E) (db : Backend E) (txn : Txn) (executor : Bool)
  (guards : List (Guard ρ)) (opGuard : Option (OperationGuard ρ)) (req : Request ρ)

/-- **The read contract of REST**: at every database state, a list, page or get shows rows that
the ability on the request may read. -/
def RestReads : Prop :=
  ∀ (op : RestOp surface) (t : Table E) (status : Nat) (payload : Payload E), op.action = .read →
    (serveRest surface db txn executor guards req op t).1 = .ok ⟨status, .json payload⟩ →
    RowsReadable (restAbility guards req) payload.shown

/-- **The read contract of GraphQL**: at every database state, in every batch and whatever comes of
the transaction, a list or get shows rows that the ability in the context may read; and whenever the
gate passes, the ambient ability is that one. -/
structure GraphqlReads : Prop where
  readable : ∀ (txn : Txn) (ops : List (GraphqlOp surface)) (t : Table E) (status : Nat)
    (results : List (Except GraphqlError (GraphqlData E))),
    (serveGraphql surface db txn executor guards opGuard req (.ok ops) t).1 =
      .ok ⟨status, .json results⟩ →
    ∀ entry ∈ ops.zip results, entry.1.isRead = true → ∀ data, entry.2 = .ok data →
      RowsReadable (graphqlAbility guards opGuard req) data.shown
  gated : (runGuards guards req).2 = .ok () →
    authorize (graphqlAbility guards opGuard req) .read E.type = .ok () →
    (graphqlAmbient executor guards opGuard req).ability = graphqlAbility guards opGuard req

/-- The wiring hands the ability on: if the gate lets the caller read, an `OperationGuard` is bound
and installs that ability. -/
def Installed (subject : TypeId) : Prop :=
  ∀ ability, graphqlAbility guards opGuard req = some ability →
    ability.canClass .read subject = true →
    ∃ guard, opGuard = some guard ∧
      guard.around (guard.before (runGuards guards req).1) = some ability

end Contract

/-! ## The rows of one operation -/

section Rows

variable {surface : Surface E} {db : Backend E} {ambient : Ambient} {t t' : Table E}

/-- The rows in scope of the caller's own ability are ones its filter keeps. -/
theorem mem_select_ambient {ability : Ability} (hambient : ambient.ability = some ability)
    {r : E.Row} (hr : r ∈ t.select db.sql (scopeFor ambient .read E.type)) :
    (E.key r).isSome = true ∧ (ability.conditionFor .read E.type).Keeps db.sql r.get := by
  obtain ⟨hmem, hkeeps⟩ := Table.mem_select.mp hr
  unfold scopeFor at hkeeps
  rw [hambient] at hkeeps
  exact ⟨t.keyed r hmem, hkeeps⟩

/-- A GraphQL list succeeds iff the gate passes and there is an executor, and shows the rows in
scope. -/
theorem resolve_list_eq_ok {ctx : Option Ability} {data : GraphqlData E} :
    resolve surface db ctx ambient .list t = .ok (data, t') ↔
      (authorize ctx .read E.type = .ok () ∧ ambient.executor = true) ∧
        data = .rows ((t.select db.sql (scopeFor ambient .read E.type)).map (item surface)) ∧
        t' = t := by
  unfold resolve
  simp only
  rw [bind_eq_ok]
  constructor
  · rintro ⟨⟨⟩, hgate, h⟩
    rw [bind_eq_ok] at h
    obtain ⟨rows, hlist, h⟩ := h
    rw [mapError_eq_ok, CrudService.list_eq_ok] at hlist
    obtain ⟨hexec, rfl⟩ := hlist
    cases h
    exact ⟨⟨hgate, hexec⟩, rfl, rfl⟩
  · rintro ⟨⟨hgate, hexec⟩, rfl, rfl⟩
    refine ⟨(), hgate, bind_eq_ok.mpr ⟨_, ?_, rfl⟩⟩
    rw [mapError_eq_ok, CrudService.list_eq_ok]
    exact ⟨hexec, rfl⟩

theorem map_row_item (rows : List E.Row) : (rows.map (item surface)).map Item.row = rows := by
  rw [List.map_map]
  exact List.map_id rows

theorem resolve_readable {ctx : Option Ability} {op : GraphqlOp surface} {data : GraphqlData E}
    (hread : op.isRead = true)
    (hcaller : ∀ ability, ambient.ability = some ability → ctx = some ability)
    (hgated : authorize ctx .read E.type = .ok () → ambient.ability = ctx)
    (hsound : ambient.executor = true → ∀ ability, ctx = some ability → FilterSound db ability)
    (h : resolve surface db ctx ambient op t = .ok (data, t')) :
    RowsReadable ctx data.shown := by
  cases op with
  | list =>
    obtain ⟨⟨hgate, hexec⟩, rfl, -⟩ := resolve_list_eq_ok.mp h
    intro r hr
    rw [GraphqlData.shown, map_row_item] at hr
    obtain ⟨ability, hctx, -⟩ := authorize_eq_ok.mp hgate
    obtain ⟨hkey, hkeeps⟩ := mem_select_ambient ((hgated hgate).trans hctx) hr
    exact ⟨ability, hctx, hsound hexec ability hctx r hkey hkeeps⟩
  | get id =>
    obtain ⟨uuid, -, ⟨-, h⟩ | ⟨model, hfound, h⟩⟩ := bindRow_eq_ok h
    · cases h
      exact fun r hr => absurd hr List.not_mem_nil
    · cases h
      obtain ⟨-, -, ability, hability, hcan⟩ := CrudService.access_eq_found.mp hfound
      intro r hr
      obtain rfl := List.mem_singleton.mp hr
      exact ⟨ability, hcaller ability hability, hcan⟩
  | create input => exact nomatch hread
  | update id input => exact nomatch hread
  | delete id => exact nomatch hread

/-- Each result of a batch is that of its operation at some table. -/
theorem mem_zip_execute {ctx : Option Ability} {ops : List (GraphqlOp surface)}
    {entry : GraphqlOp surface × Except GraphqlError (GraphqlData E)}
    (h : entry ∈ ops.zip (execute surface db ctx ambient ops t).1) :
    ∃ s, entry.2 = (resolve surface db ctx ambient entry.1 s).map Prod.fst := by
  induction ops generalizing t with
  | nil => exact absurd h List.not_mem_nil
  | cons op ops ih =>
    rw [execute, List.zip_cons_cons] at h
    rcases List.mem_cons.mp h with rfl | h
    · exact ⟨t, rfl⟩
    · exact ih h

end Rows

section Wiring

variable {ρ : Type} {surface : Surface E} {db : Backend E} {txn : Txn} {executor : Bool}
  {guards : List (Guard ρ)} {opGuard : Option (OperationGuard ρ)} {req : Request ρ}

/-! ## GraphQL -/

/-- Under a wiring that installs the ability, the gate and the filter see the same one. -/
theorem gated_of_installed (h : Installed guards opGuard req E.type)
    (hgate : authorize (graphqlAbility guards opGuard req) .read E.type = .ok ()) :
    (graphqlAmbient executor guards opGuard req).ability = graphqlAbility guards opGuard req := by
  obtain ⟨ability, hctx, hclass⟩ := authorize_eq_ok.mp hgate
  obtain ⟨guard, rfl, haround⟩ := h ability hctx hclass
  rw [hctx]
  exact haround

theorem installed_of_gated
    (h : authorize (graphqlAbility guards opGuard req) .read E.type = .ok () →
      (graphqlAmbient executor guards opGuard req).ability = graphqlAbility guards opGuard req) :
    Installed guards opGuard req E.type := by
  intro ability hctx hclass
  have hambient := h (authorize_eq_ok.mpr ⟨ability, hctx, hclass⟩)
  rw [hctx] at hambient
  cases opGuard with
  | none => exact nomatch hambient
  | some guard => exact ⟨guard, rfl, hambient⟩

/-- The answer to a batch whose transaction goes through. -/
theorem serveGraphql_fst (h : (runGuards guards req).2 = .ok ()) (ops : List (GraphqlOp surface))
    (t : Table E) :
    (serveGraphql surface db .succeeding executor guards opGuard req (.ok ops) t).1 =
      .ok ⟨200, .json (execute surface db (graphqlAbility guards opGuard req)
        (graphqlAmbient executor guards opGuard req) ops t).1⟩ := by
  have hend : (endpoint surface db executor guards opGuard req (.ok ops) t).1 =
      .ok ⟨200, .json (execute surface db (graphqlAbility guards opGuard req)
        (graphqlAmbient executor guards opGuard req) ops t).1⟩ := by
    rcases endpoint_of_passed h (.ok ops) with ⟨e, hops, -⟩ | ⟨ops', hops, heq⟩
    · exact nomatch hops
    · cases hops
      rw [heq]
  rw [serveGraphql, intercept_succeeding (by rw [hend]; rfl), hend]

/-- The contract at a table of one row makes the filter sound for it. -/
theorem filterSound_of_reads (h : GraphqlReads surface db executor guards opGuard req)
    (hrun : (runGuards guards req).2 = .ok ()) (hexec : executor = true) {ability : Ability}
    (hctx : graphqlAbility guards opGuard req = some ability) : FilterSound db ability := by
  intro r hkey hkeeps
  have hgate : authorize (graphqlAbility guards opGuard req) .read E.type = .ok () :=
    authorize_eq_ok.mpr ⟨ability, hctx, canClass_of_keeps hkeeps⟩
  have hambient := (h.gated hrun hgate).trans hctx
  let t := Table.single r hkey
  let rows := t.select db.sql (scopeFor (graphqlAmbient executor guards opGuard req) .read E.type)
  have hlist : resolve surface db (graphqlAbility guards opGuard req)
      (graphqlAmbient executor guards opGuard req) .list t =
        .ok (.rows (rows.map (item surface)), t) :=
    resolve_list_eq_ok.mpr ⟨⟨hgate, hexec⟩, rfl, rfl⟩
  have hr : r ∈ rows := by
    refine Table.mem_select.mpr ⟨List.mem_singleton_self r, ?_⟩
    unfold scopeFor
    rw [hambient]
    exact hkeeps
  have hreadable := h.readable .succeeding [.list] t 200 _ (serveGraphql_fst hrun [.list] t)
    (.list, _) (List.mem_singleton_self _) rfl (.rows (rows.map (item surface)))
    (by rw [hlist]; rfl)
  rw [GraphqlData.shown, map_row_item] at hreadable
  obtain ⟨ability', hctx', hcan⟩ := hreadable r hr
  rw [hctx] at hctx'
  cases hctx'
  exact hcan

/-- **When GraphQL reads are in scope.** -/
theorem graphqlReads_iff :
    GraphqlReads surface db executor guards opGuard req ↔
      ((runGuards guards req).2 = .ok () → Installed guards opGuard req E.type ∧
        (executor = true → ∀ ability, graphqlAbility guards opGuard req = some ability →
          FilterSound db ability)) := by
  constructor
  · intro h hrun
    exact ⟨installed_of_gated (h.gated hrun),
      fun hexec ability hctx => filterSound_of_reads h hrun hexec hctx⟩
  · intro h
    refine ⟨fun txn ops t status results hresp entry hentry hread data hdata => ?_,
      fun hrun hgate => gated_of_installed (h hrun).1 hgate⟩
    have hend : (endpoint surface db executor guards opGuard req (.ok ops) t).1 =
        .ok ⟨status, .json results⟩ := intercept_fst_ok hresp
    cases hrun : (runGuards guards req).2 with
    | error refusal =>
      rw [endpoint_of_refused hrun] at hend
      exact nomatch hend
    | ok u =>
      obtain ⟨hinstalled, hsound⟩ := h hrun
      rcases endpoint_of_passed hrun (.ok ops) with ⟨e, hops, -⟩ | ⟨ops', hops, heq⟩
      · exact nomatch hops
      · cases hops
        rw [heq] at hend
        cases hend
        obtain ⟨s, hs⟩ := mem_zip_execute hentry
        rw [hs, map_eq_ok] at hdata
        obtain ⟨⟨data', s'⟩, hres, rfl⟩ := hdata
        exact resolve_readable hread (fun ability => graphqlAmbient_caller)
          (gated_of_installed hinstalled) hsound hres

/-! ## REST -/

theorem mem_reparse {items : List (Item E)} {models : List (E.Row × E.Row)}
    (h : reparse surface items = some models) {m : E.Row × E.Row} (hm : m ∈ models) :
    ∃ i ∈ items, i.row = m.1 ∧ surface.deserialize i.json = some m.2 := by
  unfold reparse at h
  induction items generalizing models with
  | nil =>
    cases h
    exact absurd hm List.not_mem_nil
  | cons i items ih =>
    rw [List.mapM_cons] at h
    simp only [Option.bind_eq_bind, Option.bind_eq_some_iff, Option.map_eq_some_iff,
      Option.pure_def, Option.some.injEq] at h
    obtain ⟨first, ⟨model, hmodel, rfl⟩, rest, hrest, rfl⟩ := h
    rcases List.mem_cons.mp hm with rfl | hm
    · exact ⟨i, List.mem_cons_self, rfl, hmodel⟩
    · obtain ⟨j, hj, hrow⟩ := ih hrest hm
      exact ⟨j, List.mem_cons_of_mem i hj, hrow⟩

/-- A masked list shows items of the list that the ability accepts as they are parsed back, each
masked as it is parsed back. -/
theorem maskResponse_rows {ability : Ability} {action : Action} {rows : List E.Row}
    {cursor : Option Uuid} {status : Nat} {payload : Payload E}
    (h : maskResponse surface ability action
      ⟨200, .json (.rows (rows.map (item surface)) cursor)⟩ = ⟨status, .json payload⟩) :
    ∃ items, payload = .rows items cursor ∧ ∀ i ∈ items, i.row ∈ rows ∧
      ∃ model, surface.deserialize (surface.output i.row) = some model ∧
        ability.can action model = true ∧
        i.json = ability.mask surface.serialize action model := by
  have hsuccess : (!isSuccess 200) = false := rfl
  unfold maskResponse at h
  simp only [hsuccess, Bool.false_eq_true, if_false] at h
  cases hmodels : reparse surface (rows.map (item surface)) with
  | none =>
    rw [hmodels] at h
    exact nomatch h
  | some models =>
    rw [hmodels] at h
    cases h
    refine ⟨_, rfl, fun i hi => ?_⟩
    obtain ⟨m, hm, rfl⟩ := List.mem_map.mp hi
    obtain ⟨hm, hcan⟩ := List.mem_filter.mp hm
    obtain ⟨i, hi, hrow, hparse⟩ := mem_reparse hmodels hm
    obtain ⟨r, hr, rfl⟩ := List.mem_map.mp hi
    cases hrow
    exact ⟨hr, m.2, hparse, hcan, rfl⟩

/-- A masked row is the row, masked as it is parsed back. -/
theorem maskResponse_row {ability : Ability} {action : Action} {r : E.Row} {status : Nat}
    {payload : Payload E}
    (h : maskResponse surface ability action ⟨200, .json (.row (item surface r))⟩ =
      ⟨status, .json payload⟩) :
    ∃ model, surface.deserialize (surface.output r) = some model ∧
      payload = .row ⟨r, ability.mask surface.serialize action model⟩ := by
  have hsuccess : (!isSuccess 200) = false := rfl
  unfold maskResponse at h
  simp only [hsuccess, Bool.false_eq_true, if_false] at h
  split at h
  · rename_i model hparse
    cases h
    exact ⟨model, hparse, rfl⟩
  · exact nomatch h

/-- What a REST read that succeeds answers, before it is masked: rows in the ambient scope, or the
row it has loaded and checked. -/
theorem handle_read {ability : Option Ability} {ambient : Ambient} {op : RestOp surface}
    (hread : op.action = .read) {resp : Response (Payload E)} {t t' : Table E}
    (h : handle surface db ability ambient op t = .ok (resp, t')) :
    (∃ (rows : List E.Row) (cursor : Option Uuid),
      resp = ⟨200, .json (.rows (rows.map (item surface)) cursor)⟩ ∧ ∀ r ∈ rows,
        ambient.executor = true ∧ r ∈ t.select db.sql (scopeFor ambient .read E.type)) ∨
    ∃ r id, resp = ⟨200, .json (.row (item surface r))⟩ ∧ versionNum id = 7 ∧
      CrudService.access ambient .read id t = .ok (.found r) := by
  unfold handle at h
  rw [bind_eq_ok] at h
  obtain ⟨u, -, h⟩ := h
  cases op with
  | list =>
    simp only at h
    rw [bind_eq_ok] at h
    obtain ⟨rows, hlist, h⟩ := h
    rw [mapError_eq_ok, CrudService.list_eq_ok] at hlist
    obtain ⟨hexec, rfl⟩ := hlist
    cases h
    exact Or.inl ⟨_, none, rfl, fun r hr => ⟨hexec, hr⟩⟩
  | page query =>
    simp only at h
    rw [bind_eq_ok] at h
    obtain ⟨params, -, h⟩ := h
    rw [bind_eq_ok] at h
    obtain ⟨p, hpage, h⟩ := h
    rw [mapError_eq_ok] at hpage
    cases h
    exact Or.inl ⟨_, _, rfl, fun r hr => CrudService.mem_page hpage hr⟩
  | get id =>
    simp only at h
    rw [bind_eq_ok] at h
    obtain ⟨uuid, -, h⟩ := h
    obtain ⟨model, hversion, hfound, h⟩ := withAccess_eq_ok h
    cases h
    exact Or.inr ⟨model, uuid, rfl, hversion, hfound⟩
  | create body => exact nomatch hread
  | update id body => exact nomatch hread
  | delete id => exact nomatch hread

/-- The rows a REST read shows under the caller's ability. -/
theorem handle_readable {ability : Ability} {executor : Bool} {op : RestOp surface}
    (hread : op.action = .read)
    (hsound : executor = true → ShapedSound surface db ability)
    {resp : Response (Payload E)} {t t' : Table E}
    (h : handle surface db (some ability) ⟨executor, some ability⟩ op t = .ok (resp, t'))
    {status : Nat} {payload : Payload E}
    (hmask : maskResponse surface ability op.action resp = ⟨status, .json payload⟩) :
    RowsReadable (some ability) payload.shown := by
  rw [hread] at hmask
  rcases handle_read hread h with ⟨rows, cursor, rfl, hrows⟩ | ⟨r, id, rfl, -, hfound⟩
  · obtain ⟨items, rfl, hitems⟩ := maskResponse_rows hmask
    intro r hr
    obtain ⟨i, hi, rfl⟩ := List.mem_map.mp hr
    obtain ⟨hrow, model, hparse, hcan, -⟩ := hitems i hi
    obtain ⟨hexec, hselect⟩ := hrows i.row hrow
    obtain ⟨hkey, hkeeps⟩ := mem_select_ambient rfl hselect
    exact ⟨ability, rfl, hsound hexec i.row model hkey hkeeps hparse hcan⟩
  · obtain ⟨model, -, rfl⟩ := maskResponse_row hmask
    obtain ⟨-, -, ability', hability, hcan⟩ := CrudService.access_eq_found.mp hfound
    cases hability
    intro s hs
    obtain rfl := List.mem_singleton.mp hs
    exact ⟨ability, rfl, hcan⟩

/-- A REST operation that has answered with JSON ran under the ability on the request. -/
theorem route_eq_json {op : RestOp surface} {t : Table E} {status : Nat} {payload : Payload E}
    (h : (route surface db executor guards req op t).1 = .ok ⟨status, .json payload⟩) :
    (runGuards guards req).2 = .ok () ∧ ∃ ability, restAbility guards req = some ability ∧
      ∃ resp t', handle surface db (some ability) ⟨executor, some ability⟩ op t =
          .ok (resp, t') ∧
        maskResponse surface ability op.action resp = ⟨status, .json payload⟩ := by
  cases hrun : (runGuards guards req).2 with
  | error refusal =>
    rw [route_of_refused hrun] at h
    exact nomatch h
  | ok u =>
    refine ⟨rfl, ?_⟩
    unfold route at h
    unfold restAbility
    rcases hreq : runGuards guards req with ⟨req₁, result⟩
    rw [hreq] at h hrun
    simp only at hrun
    subst hrun
    simp only at h ⊢
    unfold shaped at h
    cases hability : req₁.ability with
    | none =>
      rw [hability] at h
      exact nomatch h
    | some ability =>
      refine ⟨ability, rfl, ?_⟩
      rw [hability] at h
      simp only at h
      cases hhandle : handle surface db (some ability) ⟨executor, some ability⟩ op t with
      | error e =>
        rw [hhandle] at h
        exact nomatch h
      | ok out =>
        rw [hhandle] at h
        refine ⟨out.1, out.2, rfl, ?_⟩
        injection h

/-- What a REST operation behind its guards answers, when its handler succeeds. -/
theorem route_of_handle (hrun : (runGuards guards req).2 = .ok ()) {ability : Ability}
    (hability : restAbility guards req = some ability) {op : RestOp surface} {t t' : Table E}
    {resp : Response (Payload E)}
    (h : handle surface db (some ability) ⟨executor, some ability⟩ op t = .ok (resp, t')) :
    (route surface db executor guards req op t).1 =
      .ok (maskResponse surface ability op.action resp) := by
  unfold restAbility at hability
  unfold route
  rcases hreq : runGuards guards req with ⟨req₁, result⟩
  rw [hreq] at hrun hability
  simp only at hrun hability
  subst hrun
  unfold shaped
  simp only
  rw [hability]
  simp only
  rw [h]
  rfl

/-- A REST list that passes the class gate answers with the rows in scope, masked. -/
theorem route_list (hrun : (runGuards guards req).2 = .ok ()) (hexec : executor = true)
    {ability : Ability} (hability : restAbility guards req = some ability)
    (hclass : ability.canClass .read E.type = true) (t : Table E) :
    (route surface db executor guards req .list t).1 =
      .ok (maskResponse surface ability .read ⟨200, .json (.rows
        ((t.select db.sql (ability.conditionFor .read E.type)).map (item surface)) none)⟩) := by
  have hgate : authorizeRequest (some ability) .read E.type = .ok () :=
    authorizeRequest_eq_ok.mpr ⟨ability, rfl, hclass⟩
  have hlist : CrudService.list ⟨executor, some ability⟩ db t =
      .ok (t.select db.sql (ability.conditionFor .read E.type)) :=
    CrudService.list_eq_ok.mpr ⟨hexec, rfl⟩
  have hhandle : handle surface db (some ability) ⟨executor, some ability⟩ .list t =
      .ok (⟨200, .json (.rows
        ((t.select db.sql (ability.conditionFor .read E.type)).map (item surface)) none)⟩, t) := by
    unfold handle
    exact bind_eq_ok.mpr ⟨(), hgate, bind_eq_ok.mpr ⟨_, mapError_eq_ok.mpr hlist, rfl⟩⟩
  exact route_of_handle hrun hability hhandle

/-- A REST get of a row the caller may read answers with the row, masked. -/
theorem route_get (hrun : (runGuards guards req).2 = .ok ()) {ability : Ability}
    (hability : restAbility guards req = some ability) {t : Table E} {id : Uuid} {r : E.Row}
    (hversion : versionNum id = 7)
    (hfound : CrudService.access ⟨executor, some ability⟩ .read id t = .ok (.found r)) :
    (route surface db executor guards req (.get (.ok id)) t).1 =
      .ok (maskResponse surface ability .read ⟨200, .json (.row (item surface r))⟩) := by
  obtain ⟨-, -, ability', hability', hcan⟩ := CrudService.access_eq_found.mp hfound
  cases hability'
  have hgate : authorizeRequest (some ability) .read E.type = .ok () :=
    authorizeRequest_eq_ok.mpr ⟨ability, rfl, canClass_of_can hcan⟩
  have hid : idV7Check id = .ok () := if_pos hversion
  have hhandle : handle surface db (some ability) ⟨executor, some ability⟩ (.get (.ok id)) t =
      .ok (⟨200, .json (.row (item surface r))⟩, t) := by
    unfold handle withAccess
    exact bind_eq_ok.mpr ⟨(), hgate, bind_eq_ok.mpr ⟨id, rfl, bind_eq_ok.mpr ⟨(), hid,
      bind_eq_ok.mpr ⟨_, mapError_eq_ok.mpr hfound, rfl⟩⟩⟩⟩
  exact route_of_handle hrun hability hhandle

/-- A list of one row that the shaper lets through. -/
theorem maskResponse_singleton {ability : Ability} {action : Action} {r model : E.Row}
    (hparse : surface.deserialize (surface.output r) = some model)
    (hcan : ability.can action model = true) :
    maskResponse surface ability action ⟨200, .json (.rows ([r].map (item surface)) none)⟩ =
      ⟨200, .json (.rows [⟨r, ability.mask surface.serialize action model⟩] none)⟩ := by
  simp [maskResponse, isSuccess, reparse, item, hparse, hcan]

theorem shapedSound_of_reads (h : RestReads surface db txn executor guards req)
    (hrun : (runGuards guards req).2 = .ok ()) (hexec : executor = true) {ability : Ability}
    (hability : restAbility guards req = some ability) : ShapedSound surface db ability := by
  intro r model hkey hkeeps hparse hcan
  have hlist : (route surface db executor guards req .list (Table.single r hkey)).1 = _ :=
    route_list hrun hexec hability (canClass_of_keeps hkeeps) (Table.single r hkey)
  rw [Table.select_single hkey hkeeps, maskResponse_singleton hparse hcan] at hlist
  obtain ⟨ability', hability', hread⟩ := h .list _ 200 _ rfl hlist r (List.mem_singleton_self r)
  rw [hability] at hability'
  cases hability'
  exact hread

/-- **When REST reads are in scope.** -/
theorem restReads_iff :
    RestReads surface db txn executor guards req ↔
      ((runGuards guards req).2 = .ok () → executor = true →
        ∀ ability, restAbility guards req = some ability → ShapedSound surface db ability) := by
  constructor
  · intro h hrun hexec ability hability
    exact shapedSound_of_reads h hrun hexec hability
  · intro h op t status payload hread hresp
    obtain ⟨hrun, ability, hability, resp, t', hhandle, hmask⟩ :=
      route_eq_json (intercept_fst_ok hresp)
    rw [hability]
    exact handle_readable hread (fun hexec => h hrun hexec ability hability) hhandle hmask

/-! ## The two conditions -/

/-- The filter of an ability built from typed statements is sound, `NULL`s included. -/
theorem filterSound_of_typed {specs : List RuleSpec} (hw : ∀ s ∈ specs, s.WellTyped σ) :
    FilterSound db (buildAbility specs) := fun _ _ hkeeps => can_of_keeps hw hkeeps

theorem shapedSound_of_filterSound {ability : Ability} (h : FilterSound db ability) :
    ShapedSound surface db ability := fun r _ hkey hkeeps _ _ => h r hkey hkeeps

/-- The shaper makes up for an unsound filter where a row is parsed back as it was. -/
theorem shapedSound_of_roundTrip {ability : Ability}
    (h : ∀ r model, surface.deserialize (surface.output r) = some model → model = r) :
    ShapedSound surface db ability := by
  intro r model _ _ hparse hcan
  rw [← h r model hparse]
  exact hcan

/-- `GraphqlAbilityBridge` hands on whatever ability it leaves on the request. -/
theorem installed_bridge (auth ability : Guard ρ) (subject : TypeId) :
    Installed guards (some (graphqlAbilityBridge auth ability)) req subject :=
  fun _ hctx _ => ⟨graphqlAbilityBridge auth ability, rfl, hctx⟩

end Wiring

/-- **The scope of generated reads.** For every wiring of guards and every request: the rows that
REST lists, pages and gets return, at every database state, are ones the ability on the request may
read iff its filter is sound on the rows the shaper lets through; and the rows that GraphQL lists
and gets return are, with the ambient ability the one the gate has passed, iff that ability's filter
is sound and, if the gate can pass, an `OperationGuard` is bound and installs it. -/
theorem read_scope {ρ : Type} (surface : Surface E) (db : Backend E) (txn : Txn) (executor : Bool)
    (guards : List (Guard ρ)) (opGuard : Option (OperationGuard ρ)) (req : Request ρ) :
    (RestReads surface db txn executor guards req ↔
        ((runGuards guards req).2 = .ok () → executor = true →
          ∀ ability, restAbility guards req = some ability → ShapedSound surface db ability)) ∧
      (GraphqlReads surface db executor guards opGuard req ↔
        ((runGuards guards req).2 = .ok () → Installed guards opGuard req E.type ∧
          (executor = true → ∀ ability, graphqlAbility guards opGuard req = some ability →
            FilterSound db ability))) :=
  ⟨restReads_iff, graphqlReads_iff⟩

/-- A caller of one organisation, its ability attached by a guard of the transport and no
`OperationGuard` bound, lists the users: it is shown a user of another one. -/
theorem graphql_list_unscoped :
    ¬ GraphqlReads usersSurface usersDb true [tenantGuard] none ⟨none, acme⟩ := by
  intro h
  have hresp : (serveGraphql usersSurface usersDb .succeeding true [tenantGuard] none
      ⟨none, acme⟩ (.ok [.list]) (Table.single (user alice globex) rfl)).1 =
        .ok ⟨200, .json [.ok (.rows [item usersSurface (user alice globex)])]⟩ := rfl
  obtain ⟨ability, hability, hcan⟩ := h.readable .succeeding [.list] _ 200 _ hresp (.list, _)
    (List.mem_singleton_self _) rfl _ rfl (user alice globex) (List.mem_singleton_self _)
  cases hability
  exact absurd hcan (by decide)

end Nestrs.Crud
