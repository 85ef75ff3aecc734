import Nestrs.Api.Changes

/-!
# What one request to the api app shows and writes

The rows a request shows are ones of its caller (`Visible`), on REST, on GraphQL with all its
fields, and on the gateway. What it does to the database is a sequence of writes of its caller
(`Effect`).

Results:
* `runGuards_arriving`, `scopeOf_arriving`: a request that gets past the guards carries the ability
  of its caller, and one that does not carries none;
* `users_visible`, `orgs_visible`, `graphql_visible`, `gatewayList_rows`: what is shown;
* `users_effect`, `orgs_effect`, `graphql_effect`: the writes that a request is made of.
-/

namespace Nestrs.Api

open Nestrs.Lib Nestrs.Authz Nestrs.Orm Nestrs.Http Nestrs.Crud Nestrs.Resource Nestrs.Auth

variable {EK DK : Type}

/-! ## Callers -/

section Callers

variable (server : Server EK DK) (now : Nat) (authorization : Option String)

theorem authenticate_arriving :
    (∃ claims, server.caller now authorization = some claims ∧
      server.authGuard now (arriving authorization) =
        (⟨none, { (arriving authorization).rest with principal := some claims }⟩, .ok ())) ∨
    (server.caller now authorization = none ∧ ∃ refusal,
      server.authGuard now (arriving authorization) =
        (arriving authorization, .error refusal)) := by
  unfold Server.caller Server.authGuard Auth.authGuard
  cases JwtStrategy.authenticate server.engine (Claims.wire server.uuids) server.jwt
      (arriving authorization).rest now with
  | error e => exact .inr ⟨rfl, _, rfl⟩
  | ok outcome =>
    cases outcome with
    | authenticated claims => exact .inl ⟨claims, rfl, rfl⟩
    | challenge response => exact .inr ⟨rfl, _, rfl⟩

/-- The request of a caller, behind the guards. -/
def behind (authorization : Option String) (claims : Claims) : Request (AuthRequest Claims) :=
  ⟨some (abilityOf claims), { (arriving authorization).rest with principal := some claims }⟩

/-- **The guards** let a request through with the ability of its caller, or refuse it. -/
theorem runGuards_arriving :
    (∃ claims, server.caller now authorization = some claims ∧
      runGuards (server.guards now) (arriving authorization) =
        (behind authorization claims, .ok ())) ∨
    (server.caller now authorization = none ∧ ∃ refusal,
      runGuards (server.guards now) (arriving authorization) =
        (arriving authorization, .error refusal)) := by
  rcases authenticate_arriving server now authorization with
    ⟨claims, hcaller, hguard⟩ | ⟨hcaller, refusal, hguard⟩
  · refine .inl ⟨claims, hcaller, ?_⟩
    rw [Server.guards, runGuards, hguard]
    rfl
  · refine .inr ⟨hcaller, refusal, ?_⟩
    rw [Server.guards, runGuards, hguard]

/-- **The bridge** of `/graphql` does the same, but lets every request through. -/
theorem scopeOf_arriving :
    (∃ claims, server.caller now authorization = some claims ∧
      scopeOf (some (server.graphqlAuthGuard now)) (arriving authorization) =
        (behind authorization claims, some (abilityOf claims))) ∨
    (server.caller now authorization = none ∧
      scopeOf (some (server.graphqlAuthGuard now)) (arriving authorization) =
        (arriving authorization, none)) := by
  unfold scopeOf Server.graphqlAuthGuard graphqlAbilityBridge
  rcases authenticate_arriving server now authorization with
    ⟨claims, hcaller, hguard⟩ | ⟨hcaller, refusal, hguard⟩
  · refine .inl ⟨claims, hcaller, ?_⟩
    simp only [hguard]
    rfl
  · refine .inr ⟨hcaller, ?_⟩
    simp only [hguard]
    rfl

end Callers

/-! ## REST -/

section Rest

variable {server : Server EK DK} {now : Nat} {authorization : Option String} {seed : Uuid}
  {s : Store} {status : Nat}

theorem handle_canClass {E : Entity schema} {surface : Surface E} {db : Backend E}
    {ambient : Ambient} {ability : Ability} {op : RestOp surface} {t : Table E}
    {out : Http.Response (Payload E) × Table E}
    (h : handle surface db (some ability) ambient op t = .ok out) :
    ability.canClass op.action E.type = true := by
  unfold handle at h
  rw [bind_eq_ok] at h
  obtain ⟨u, hgate, -⟩ := h
  obtain ⟨ability', hability, hclass⟩ := authorizeRequest_eq_ok.mp hgate
  cases hability
  exact hclass

/-- A generated operation that answered with rows ran for its caller. -/
theorem route_json {E : Entity schema} {surface : Surface E} {db : Backend E}
    {op : RestOp surface} {t : Table E} {payload : Payload E}
    (h : (route surface db true (server.guards now) (arriving authorization) op t).1 =
      .ok ⟨status, .json payload⟩) :
    ∃ actor, server.caller now authorization = some actor ∧ ∃ resp t',
      handle surface db (some (abilityOf actor)) ⟨true, some (abilityOf actor)⟩ op t =
        .ok (resp, t') ∧
      maskResponse surface (abilityOf actor) op.action resp = ⟨status, .json payload⟩ := by
  obtain ⟨hrun, ability, hability, hhandle⟩ := route_eq_json h
  rcases runGuards_arriving server now authorization with
    ⟨actor, hcaller, hguards⟩ | ⟨-, refusal, hguards⟩
  · rw [restAbility, hguards] at hability
    cases hability
    exact ⟨actor, hcaller, hhandle⟩
  · rw [hguards] at hrun
    cases hrun

/-- A generated operation that wrote ran for its caller. -/
theorem route_wrote (server : Server EK DK) (now : Nat) (authorization : Option String)
    {E : Entity schema} {surface : Surface E} (db : Backend E) (op : RestOp surface)
    (t : Table E) :
    (route surface db true (server.guards now) (arriving authorization) op t).2 = t ∨
      ∃ actor, server.caller now authorization = some actor ∧ ∃ resp,
        handle surface db (some (abilityOf actor)) ⟨true, some (abilityOf actor)⟩ op t =
          .ok (resp,
            (route surface db true (server.guards now) (arriving authorization) op t).2) := by
  rcases runGuards_arriving server now authorization with
    ⟨actor, hcaller, hguards⟩ | ⟨-, refusal, hguards⟩
  · have hrun : (runGuards (server.guards now) (arriving authorization)).2 = .ok () := by
      rw [hguards]
    have hability : restAbility (server.guards now) (arriving authorization) =
        some (abilityOf actor) := by
      rw [restAbility, hguards]
      rfl
    rcases (route_of_passed hrun op : (_ ∧ (route surface db true _ _ op t).2 = t) ∨ _) with
      ⟨-, hsame⟩ | ⟨resp, hhandle⟩
    · exact .inl hsame
    · rw [hability] at hhandle
      exact .inr ⟨actor, hcaller, resp, hhandle⟩
  · have hrun : (runGuards (server.guards now) (arriving authorization)).2 = .error refusal := by
      rw [hguards]
    exact .inl (by rw [route_of_refused hrun])

/-- What a read shows is what its caller may read. -/
theorem can_of_read {E : Entity schema} {surface : Surface E} {db : Backend E} {actor : Claims}
    {op : RestOp surface} {t t' : Table E} {resp : Http.Response (Payload E)} {payload : Payload E}
    (hread : op.action = .read)
    (hhandle : handle surface db (some (abilityOf actor)) ⟨true, some (abilityOf actor)⟩ op t =
      .ok (resp, t'))
    (hmask : maskResponse surface (abilityOf actor) op.action resp = ⟨status, .json payload⟩) :
    ∀ r ∈ payload.shown, (abilityOf actor).can .read r = true := by
  intro r hr
  have hsound : true = true → ShapedSound surface db (abilityOf actor) := fun _ =>
    shapedSound_of_filterSound (filterSound_of_typed (wellTyped_define actor))
  obtain ⟨ability, hability, hcan⟩ := handle_readable hread hsound hhandle hmask r hr
  cases hability
  exact hcan

theorem usersCrud_visible {op : RestOp (server.usersSurface seed)}
    (hcreate : ∀ body, op ≠ .create body) {payload : Payload userEntity}
    (h : (server.usersCrud now seed authorization op s).1 = .ok ⟨status, .json payload⟩) :
    ∃ actor, server.caller now authorization = some actor ∧
      ∀ r ∈ payload.shown, OwnUser actor r := by
  obtain ⟨actor, hcaller, resp, t', hhandle, hmask⟩ := route_json h
  refine ⟨actor, hcaller, fun r hr => ?_⟩
  cases op with
  | list => exact ownUser_of_can (can_of_read rfl hhandle hmask r hr)
  | page query => exact ownUser_of_can (can_of_read rfl hhandle hmask r hr)
  | get id => exact ownUser_of_can (can_of_read rfl hhandle hmask r hr)
  | create body => exact absurd rfl (hcreate body)
  | update id body =>
    unfold handle at hhandle
    rw [bind_eq_ok] at hhandle
    obtain ⟨-, -, hhandle⟩ := hhandle
    simp only at hhandle
    rw [bind_eq_ok] at hhandle
    obtain ⟨id, -, hhandle⟩ := hhandle
    rw [bind_eq_ok] at hhandle
    obtain ⟨input, -, hhandle⟩ := hhandle
    obtain ⟨model, -, hfound, hhandle⟩ := withAccess_eq_ok hhandle
    rw [bind_eq_ok] at hhandle
    obtain ⟨⟨row, t₁⟩, hupdate, hhandle⟩ := hhandle
    cases hhandle
    rw [mapError_eq_ok] at hupdate
    obtain ⟨shown, -, rfl⟩ := maskResponse_row hmask
    obtain ⟨-, hfind, ability, hability, hcan⟩ := CrudService.access_eq_found.mp hfound
    cases hability
    obtain rfl := List.mem_singleton.mp hr
    exact update_row (ownUser_of_can hcan) (Table.mem_of_findById hfind).1 hupdate
  | delete id =>
    unfold handle at hhandle
    rw [bind_eq_ok] at hhandle
    obtain ⟨-, -, hhandle⟩ := hhandle
    simp only at hhandle
    rw [bind_eq_ok] at hhandle
    obtain ⟨id, -, hhandle⟩ := hhandle
    obtain ⟨model, -, -, hhandle⟩ := withAccess_eq_ok hhandle
    rw [bind_eq_ok] at hhandle
    obtain ⟨t₁, -, hhandle⟩ := hhandle
    cases hhandle
    exact nomatch hmask

theorem usersCrud_effect {op : RestOp (server.usersSurface seed)}
    (hcreate : ∀ body, op ≠ .create body) :
    Effect server (server.caller now authorization) s
      (server.usersCrud now seed authorization op s).2 := by
  rcases route_wrote server now authorization (s.usersDb server.sql) op s.users with
    hsame | ⟨actor, hcaller, resp, hhandle⟩
  · have hstore : (server.usersCrud now seed authorization op s).2 = s :=
      congrArg (Store.mk · s.orgs) hsame
    rw [hstore]
    exact Effect.refl _ _
  · rw [hcaller]
    refine .users seed op.write (handle_wrote hhandle) (fun input hwrite => ?_) (.refl _)
    cases op with
    | create body => exact hcreate body rfl
    | list => cases hwrite
    | page query => cases hwrite
    | get id => cases hwrite
    | update id body => cases id <;> cases body <;> cases hwrite
    | delete id => cases id <;> cases hwrite

/-- A hand-written method runs for the caller, or not at all. -/
theorem guarded_cases {β : Type} (server : Server EK DK) (now : Nat)
    (authorization : Option String)
    (method : Request (AuthRequest Claims) → Except PoemError (Http.Response β × Store))
    (s : Store) :
    (∃ actor, server.caller now authorization = some actor ∧
      ((∃ resp s', method (behind authorization actor) = .ok (resp, s') ∧
          server.guarded now authorization method s = (.ok resp, s')) ∨
        ∃ e, server.guarded now authorization method s = (.error e, s))) ∨
    (server.caller now authorization = none ∧ ∃ refusal : Refusal,
      server.guarded now authorization method s =
        (.ok ⟨refusal.status, .text refusal.message⟩, s)) := by
  unfold Server.guarded
  rcases runGuards_arriving server now authorization with
    ⟨actor, hcaller, hguards⟩ | ⟨hcaller, refusal, hguards⟩
  · refine .inl ⟨actor, hcaller, ?_⟩
    rw [hguards]
    simp only
    cases method (behind authorization actor) with
    | error e => exact .inr ⟨e, rfl⟩
    | ok out => exact .inl ⟨out.1, out.2, rfl, rfl⟩
  · refine .inr ⟨hcaller, refusal, ?_⟩
    rw [hguards]

theorem getUser_eq_ok {actor : Claims} {id : Except PoemError Uuid}
    {resp : Http.Response (Payload userEntity)}
    (h : getUser (behind authorization actor) id s = .ok resp) :
    ∃ model, OwnUser actor model ∧ resp = ⟨200, .json (.row (shownAs user model))⟩ := by
  unfold getUser at h
  rw [bind_eq_ok] at h
  obtain ⟨id, -, h⟩ := h
  rw [bind_eq_ok] at h
  obtain ⟨-, -, h⟩ := h
  simp only [behind] at h
  rw [bind_eq_ok] at h
  obtain ⟨access, haccess, h⟩ := h
  rw [mapError_eq_ok] at haccess
  cases access with
  | found model =>
    cases h
    obtain ⟨-, -, ability, hability, hcan⟩ := CrudService.access_eq_found.mp haccess
    cases hability
    exact ⟨model, ownUser_of_can hcan, rfl⟩
  | denied => cases h
  | missing => cases h

/-- `create` makes a user of its caller's organisation, whatever the body says. -/
theorem createUser_eq_ok {actor : Claims} {body : Except PoemError user.CreateInput} {s' : Store}
    {resp : Http.Response (Payload userEntity)}
    (h : server.createUser (behind authorization actor) seed body s = .ok (resp, s')) :
    ∃ input row, server.createInOrg ⟨true, some (abilityOf actor)⟩ seed input actor.orgId s =
        .ok (row, s') ∧
      resp = maskResponse (server.usersSurface seed) (abilityOf actor) .create
        ⟨200, .json (.row (item (server.usersSurface seed) row))⟩ := by
  unfold Server.createUser at h
  rw [bind_eq_ok] at h
  obtain ⟨-, -, h⟩ := h
  rw [bind_eq_ok] at h
  obtain ⟨auth, hauth, h⟩ := h
  cases hauth
  rw [bind_eq_ok] at h
  obtain ⟨input, -, h⟩ := h
  rw [bind_eq_ok] at h
  obtain ⟨⟨row, s₁⟩, hcreate, h⟩ := h
  rw [mapError_eq_ok] at hcreate
  cases h
  exact ⟨input, row, hcreate, rfl⟩

/-- **What the users controller shows.** -/
theorem users_visible {request : UsersRequest} {payload : Payload userEntity}
    (h : (server.users now seed authorization request s).1 = .ok ⟨status, .json payload⟩) :
    ∃ actor, server.caller now authorization = some actor ∧
      ∀ r ∈ payload.shown, OwnUser actor r := by
  cases request with
  | list => exact usersCrud_visible (by nofun) h
  | update id body => exact usersCrud_visible (by nofun) h
  | delete id => exact usersCrud_visible (by nofun) h
  | get id =>
    rcases guarded_cases server now authorization
      (fun req => (getUser req id s).map fun resp => (resp, s)) s with
      ⟨actor, hcaller, ⟨resp, s', hmethod, hguarded⟩ | ⟨e, hguarded⟩⟩ | ⟨-, refusal, hguarded⟩
    · obtain ⟨resp', hget, hout⟩ := map_eq_ok.mp hmethod
      cases hout
      obtain ⟨model, hown, rfl⟩ := getUser_eq_ok hget
      rw [Server.users, hguarded] at h
      cases h
      refine ⟨actor, hcaller, fun r hr => ?_⟩
      obtain rfl := List.mem_singleton.mp hr
      exact hown
    · rw [Server.users, hguarded] at h
      cases h
    · rw [Server.users, hguarded] at h
      cases h
  | create body =>
    rcases guarded_cases server now authorization
      (fun req => server.createUser req seed body s) s with
      ⟨actor, hcaller, ⟨resp, s', hmethod, hguarded⟩ | ⟨e, hguarded⟩⟩ | ⟨-, refusal, hguarded⟩
    · obtain ⟨input, row, hcreate, rfl⟩ := createUser_eq_ok hmethod
      rw [Server.users, hguarded] at h
      injection h with h
      obtain ⟨model, -, rfl⟩ := maskResponse_row h
      refine ⟨actor, hcaller, fun r hr => ?_⟩
      obtain rfl := List.mem_singleton.mp hr
      exact (createInOrg_eq_ok hcreate).1
    · rw [Server.users, hguarded] at h
      cases h
    · rw [Server.users, hguarded] at h
      cases h

/-- **What the users controller writes.** -/
theorem users_effect (request : UsersRequest) :
    Effect server (server.caller now authorization) s
      (server.users now seed authorization request s).2 := by
  cases request with
  | list => exact usersCrud_effect (by nofun)
  | update id body => exact usersCrud_effect (by nofun)
  | delete id => exact usersCrud_effect (by nofun)
  | get id =>
    rcases guarded_cases server now authorization
      (fun req => (getUser req id s).map fun resp => (resp, s)) s with
      ⟨actor, hcaller, ⟨resp, s', hmethod, hguarded⟩ | ⟨e, hguarded⟩⟩ | ⟨-, refusal, hguarded⟩
    · obtain ⟨resp', -, hout⟩ := map_eq_ok.mp hmethod
      cases hout
      rw [Server.users, hguarded]
      exact Effect.refl _ _
    · rw [Server.users, hguarded]
      exact Effect.refl _ _
    · rw [Server.users, hguarded]
      exact Effect.refl _ _
  | create body =>
    rcases guarded_cases server now authorization
      (fun req => server.createUser req seed body s) s with
      ⟨actor, hcaller, ⟨resp, s', hmethod, hguarded⟩ | ⟨e, hguarded⟩⟩ | ⟨-, refusal, hguarded⟩
    · obtain ⟨input, row, hcreate, -⟩ := createUser_eq_ok hmethod
      rw [Server.users, hguarded, hcaller]
      exact .created seed input row hcreate (.refl _)
    · rw [Server.users, hguarded]
      exact Effect.refl _ _
    · rw [Server.users, hguarded]
      exact Effect.refl _ _

/-- An operation on organisations that writes is one of an admin. -/
theorem orgs_of_handle {db : Backend orgEntity} {actor : Claims}
    {op : RestOp (server.orgsSurface seed)} {t t' : Table orgEntity}
    {resp : Http.Response (Payload orgEntity)}
    (h : handle (server.orgsSurface seed) db (some (abilityOf actor))
      ⟨true, some (abilityOf actor)⟩ op t = .ok (resp, t')) :
    actor.isAdmin = true ∨ op.action = .read ∧ t' = t := by
  by_cases hread : op.action = .read
  · have hsafe : isSafe op.method = true := by
      cases op with
      | list => rfl
      | page query => rfl
      | get id => rfl
      | create body => cases hread
      | update id body => cases hread
      | delete id => cases hread
    have hwrote := handle_wrote h
    rw [write_of_isSafe hsafe] at hwrote
    exact .inr ⟨hread, eq_of_wrote_none hwrote⟩
  · exact .inl (isAdmin_of_canClass hread (handle_canClass h))

/-- **What the orgs controller shows.** -/
theorem orgs_visible {request : OrgsRequest} {payload : Payload orgEntity}
    (h : (server.orgs now seed authorization request s).1 = .ok ⟨status, .json payload⟩) :
    ∃ actor, server.caller now authorization = some actor ∧
      ∀ r ∈ payload.shown, OwnOrg actor r := by
  unfold Server.orgs at h
  simp only at h
  split at h
  · cases h
  · obtain ⟨actor, hcaller, resp, t', hhandle, hmask⟩ := route_json h
    refine ⟨actor, hcaller, fun r hr => ?_⟩
    rcases orgs_of_handle hhandle with hadmin | ⟨hread, -⟩
    · exact .inl hadmin
    · exact ownOrg_of_can (can_of_read hread hhandle hmask r hr)

/-- **What the orgs controller writes.** -/
theorem orgs_effect (request : OrgsRequest) :
    Effect server (server.caller now authorization) s
      (server.orgs now seed authorization request s).2 := by
  unfold Server.orgs
  simp only
  split
  · exact Effect.refl _ _
  · rename_i hrestricts
    rcases route_wrote server now authorization (s.orgsDb server.sql)
      (server.orgsOp seed request) s.orgs with hsame | ⟨actor, hcaller, resp, hhandle⟩
    · rw [hsame]
      exact Effect.refl _ _
    · rw [hcaller]
      exact .orgs seed _ (handle_wrote hhandle) ((orgs_of_handle hhandle).imp_right And.right)
        (Bool.eq_false_iff.mpr hrestricts) (.refl _)

end Rest

/-! ## GraphQL -/

section Graphql

variable {server : Server EK DK} {now : Nat} {authorization : Option String} {seed : Uuid}
  {s s' : Store} {actor : Claims}

/-- Without an ability an operation shows nothing and writes nothing. -/
theorem resolve_anonymous {E : Entity schema} {surface : Surface E} {db : Backend E}
    {op : GraphqlOp surface} {t t' : Table E} {data : GraphqlData E}
    (h : resolve surface db none ⟨true, none⟩ op t = .ok (data, t')) :
    data.shown = [] ∧ t' = t := by
  have hsame : tableAfter surface db none ⟨true, none⟩ op t = t := tableAfter_of_anonymous op t
  rw [tableAfter, h] at hsame
  refine ⟨?_, hsame⟩
  have hnone : ∀ {action id model}, CrudService.access ⟨true, none⟩ action id t ≠
      .ok (.found model) := by
    intro action id model hfound
    obtain ⟨-, -, ability, hability, -⟩ := CrudService.access_eq_found.mp hfound
    cases hability
  cases op with
  | list => cases h
  | create input => cases h
  | get id =>
    obtain ⟨uuid, -, ⟨-, h⟩ | ⟨model, hfound, -⟩⟩ := bindRow_eq_ok h
    · cases h
      rfl
    · exact absurd hfound hnone
  | update id input =>
    obtain ⟨uuid, -, ⟨-, h⟩ | ⟨model, hfound, -⟩⟩ := bindRow_eq_ok h
    · cases h
      rfl
    · exact absurd hfound hnone
  | delete id =>
    obtain ⟨uuid, -, ⟨-, h⟩ | ⟨model, hfound, -⟩⟩ := bindRow_eq_ok h
    · cases h
      rfl
    · exact absurd hfound hnone

/-- A list or a get shows what its caller may read. -/
theorem can_of_query {E : Entity schema} {surface : Surface E} {db : Backend E}
    {op : GraphqlOp surface} {t t' : Table E} {data : GraphqlData E} (hread : op.isRead = true)
    (h : resolve surface db (some (abilityOf actor)) ⟨true, some (abilityOf actor)⟩ op t =
      .ok (data, t')) : ∀ r ∈ data.shown, (abilityOf actor).can .read r = true := by
  have hshown : RowsReadable (some (abilityOf actor)) data.shown := by
    refine resolve_readable hread ?_ ?_ ?_ h
    · exact fun _ heq => heq
    · exact fun _ => rfl
    · rintro - ability ⟨⟩
      exact filterSound_of_typed (wellTyped_define actor)
  intro r hr
  obtain ⟨ability, hability, hcan⟩ := hshown r hr
  cases hability
  exact hcan

theorem usersGraphql_eq_ok {op : GraphqlOp (server.usersSurface seed)}
    (hcreate : ∀ input, op ≠ .create input) {data : Server.Data}
    (h : server.usersGraphql (some (abilityOf actor)) ⟨true, some (abilityOf actor)⟩ seed op s =
      .ok (data, s')) : (∀ n ∈ data.nodes, Visible actor n) ∧ Changes server actor s s' := by
  unfold Server.usersGraphql at h
  rw [bind_eq_ok] at h
  obtain ⟨⟨data, users⟩, hresolve, h⟩ := h
  cases h
  have hchanges : Changes server actor s { s with users } :=
    .users seed op.write (resolve_wrote hresolve)
      (fun input hwrite => hcreate input (eq_create_of_write hwrite)) (.refl _)
  have hrow : ∀ {item : Option (Item userEntity)}, (∀ i, item = some i → OwnUser actor i.row) →
      ∀ n ∈ (Server.Data.users (.row item)).nodes, Visible actor n := by
    intro item hitem n hn
    obtain ⟨i, hi, rfl⟩ := List.mem_map.mp hn
    exact hitem i (Option.mem_toList.mp hi)
  cases op with
  | create input => exact absurd rfl (hcreate input)
  | list =>
    refine ⟨fun n hn => ?_, hchanges⟩
    obtain ⟨-, rfl, -⟩ := resolve_list_eq_ok.mp hresolve
    obtain ⟨i, hi, rfl⟩ := List.mem_map.mp hn
    exact ownUser_of_can (can_of_query rfl hresolve i.row (List.mem_map_of_mem hi))
  | get id =>
    obtain ⟨uuid, -, ⟨-, hout⟩ | ⟨model, hfound, hout⟩⟩ := bindRow_eq_ok hresolve
    · cases hout
      exact ⟨hrow nofun, hchanges⟩
    · cases hout
      refine ⟨hrow fun i hi => ?_, hchanges⟩
      cases hi
      obtain ⟨-, -, ability, hability, hcan⟩ := CrudService.access_eq_found.mp hfound
      cases hability
      exact ownUser_of_can hcan
  | update id input =>
    obtain ⟨uuid, -, ⟨-, hout⟩ | ⟨model, hfound, hout⟩⟩ := bindRow_eq_ok hresolve
    · cases hout
      exact ⟨hrow nofun, hchanges⟩
    · rw [bind_eq_ok] at hout
      obtain ⟨⟨row, users'⟩, hupdate, hout⟩ := hout
      cases hout
      rw [mapError_eq_ok] at hupdate
      refine ⟨hrow fun i hi => ?_, hchanges⟩
      cases hi
      obtain ⟨-, hfind, ability, hability, hcan⟩ := CrudService.access_eq_found.mp hfound
      cases hability
      exact update_row (ownUser_of_can hcan) (Table.mem_of_findById hfind).1 hupdate
  | delete id =>
    obtain ⟨uuid, -, ⟨-, hout⟩ | ⟨model, hfound, hout⟩⟩ := bindRow_eq_ok hresolve
    · cases hout
      exact ⟨nofun, hchanges⟩
    · rw [bind_eq_ok] at hout
      obtain ⟨users', -, hout⟩ := hout
      cases hout
      exact ⟨nofun, hchanges⟩

/-- An operation on organisations is one of an admin, or reads. -/
theorem orgs_of_resolve {db : Backend orgEntity} {op : GraphqlOp (server.orgsSurface seed)}
    {t t' : Table orgEntity} {data : GraphqlData orgEntity}
    (h : resolve (server.orgsSurface seed) db (some (abilityOf actor))
      ⟨true, some (abilityOf actor)⟩ op t = .ok (data, t')) :
    actor.isAdmin = true ∨ t' = t ∧ ∀ r ∈ data.shown, OwnOrg actor r := by
  have hwrite : ∀ {action id model}, action ≠ .read →
      CrudService.access ⟨true, some (abilityOf actor)⟩ action id t = .ok (.found model) →
      actor.isAdmin = true := by
    intro action id model hne hfound
    obtain ⟨-, -, ability, hability, hcan⟩ := CrudService.access_eq_found.mp hfound
    cases hability
    exact isAdmin_of_canClass hne (canClass_of_can hcan)
  cases op with
  | list =>
    obtain ⟨-, -, rfl⟩ := resolve_list_eq_ok.mp h
    exact .inr ⟨rfl, fun r hr => ownOrg_of_can (can_of_query rfl h r hr)⟩
  | get id =>
    have hread := can_of_query rfl h
    obtain ⟨uuid, -, ⟨-, hout⟩ | ⟨model, -, hout⟩⟩ := bindRow_eq_ok h
    · cases hout
      exact .inr ⟨rfl, nofun⟩
    · cases hout
      exact .inr ⟨rfl, fun r hr => ownOrg_of_can (hread r hr)⟩
  | create input =>
    unfold resolve at h
    rw [bind_eq_ok] at h
    obtain ⟨u, hgate, -⟩ := h
    obtain ⟨ability, hability, hclass⟩ := authorize_eq_ok.mp hgate
    cases hability
    exact .inl (isAdmin_of_canClass (by decide) hclass)
  | update id input =>
    obtain ⟨uuid, -, ⟨-, hout⟩ | ⟨model, hfound, -⟩⟩ := bindRow_eq_ok h
    · cases hout
      exact .inr ⟨rfl, nofun⟩
    · exact .inl (hwrite (by decide) hfound)
  | delete id =>
    obtain ⟨uuid, -, ⟨-, hout⟩ | ⟨model, hfound, -⟩⟩ := bindRow_eq_ok h
    · cases hout
      exact .inr ⟨rfl, nofun⟩
    · exact .inl (hwrite (by decide) hfound)

theorem orgsGraphql_eq_ok {op : GraphqlOp (server.orgsSurface seed)} {data : Server.Data}
    (h : server.orgsGraphql (some (abilityOf actor)) ⟨true, some (abilityOf actor)⟩ seed op s =
      .ok (data, s')) : (∀ n ∈ data.nodes, Visible actor n) ∧ Changes server actor s s' := by
  unfold Server.orgsGraphql at h
  rw [bind_eq_ok] at h
  obtain ⟨⟨data, orgs⟩, hresolve, h⟩ := h
  simp only at h
  split at h
  · cases h
  · rename_i hrestricts
    cases h
    have hnodes : (∀ r ∈ data.shown, OwnOrg actor r) →
        ∀ n ∈ (Server.Data.orgs data).nodes, Visible actor n := by
      intro hshown n hn
      cases data with
      | rows items =>
        obtain ⟨i, hi, rfl⟩ := List.mem_map.mp hn
        exact hshown i.row (List.mem_map_of_mem hi)
      | row item =>
        obtain ⟨i, hi, rfl⟩ := List.mem_map.mp hn
        exact hshown i.row (List.mem_map_of_mem hi)
      | flag b => cases hn
    have hadmin := orgs_of_resolve hresolve
    refine ⟨hnodes fun r hr => ?_, .orgs seed op.write (resolve_wrote hresolve)
      (hadmin.imp_right And.left) (Bool.eq_false_iff.mpr hrestricts) (.refl _)⟩
    rcases hadmin with hadmin | ⟨-, hshown⟩
    · exact .inl hadmin
    · exact hshown r hr

theorem userQuery_eq_ok {ctx : Option Ability} {ambient : Ambient} {id : String}
    {data : Server.Data} (h : server.userQuery ctx ambient seed id s = .ok (data, s')) :
    s' = s ∧ (data.nodes = [] ∨ ∃ model ability, data = .users (.row (some (shownAs user model))) ∧
      ambient.ability = some ability ∧ ability.can .read model = true) := by
  unfold Server.userQuery at h
  rw [bind_eq_ok] at h
  obtain ⟨row, hbind, h⟩ := h
  cases h
  refine ⟨rfl, ?_⟩
  unfold Crud.bind at hbind
  rw [bind_eq_ok] at hbind
  obtain ⟨-, -, hbind⟩ := hbind
  rw [bind_eq_ok] at hbind
  obtain ⟨uuid, -, hbind⟩ := hbind
  simp only [Bool.not_true, Bool.false_eq_true, if_false] at hbind
  rw [bind_eq_ok] at hbind
  obtain ⟨access, haccess, hbind⟩ := hbind
  rw [mapError_eq_ok] at haccess
  cases access with
  | found model =>
    cases hbind
    obtain ⟨-, -, ability, hability, hcan⟩ := CrudService.access_eq_found.mp haccess
    exact .inr ⟨model, ability, rfl, hability, hcan⟩
  | denied => cases hbind
  | missing =>
    cases hbind
    exact .inl rfl

/-- An operation shows its caller's objects and writes what its caller may. -/
theorem operation_eq_ok {op : Operation} {data : Server.Data}
    (h : server.operation (some (abilityOf actor)) (some actor) ⟨true, some (abilityOf actor)⟩ seed
      op s = .ok (data, s')) : (∀ n ∈ data.nodes, Visible actor n) ∧ Changes server actor s s' := by
  cases op with
  | users => exact usersGraphql_eq_ok (by nofun) h
  | updateUser id input => exact usersGraphql_eq_ok (by nofun) h
  | deleteUser id => exact usersGraphql_eq_ok (by nofun) h
  | orgs => exact orgsGraphql_eq_ok h
  | org id => exact orgsGraphql_eq_ok h
  | createOrg input => exact orgsGraphql_eq_ok h
  | updateOrg id input => exact orgsGraphql_eq_ok h
  | deleteOrg id => exact orgsGraphql_eq_ok h
  | user id =>
    obtain ⟨rfl, hnone | ⟨model, ability, rfl, hability, hcan⟩⟩ := userQuery_eq_ok h
    · exact ⟨fun n hn => absurd (hnone ▸ hn) List.not_mem_nil, .refl _⟩
    · cases hability
      refine ⟨fun n hn => ?_, .refl _⟩
      obtain rfl := List.mem_singleton.mp hn
      exact ownUser_of_can hcan
  | createUser input =>
    rw [Server.operation, Server.createUserMutation, bind_eq_ok] at h
    obtain ⟨-, -, h⟩ := h
    rw [bind_eq_ok] at h
    obtain ⟨⟨row, s₁⟩, hcreate, h⟩ := h
    cases h
    rw [mapError_eq_ok] at hcreate
    refine ⟨fun n hn => ?_, .created seed input row hcreate (.refl _)⟩
    obtain rfl := List.mem_singleton.mp hn
    exact (createInOrg_eq_ok hcreate).1

theorem nodes_users_of_shown {data : GraphqlData userEntity} (h : data.shown = []) :
    (Server.Data.users data).nodes = [] := by
  cases data with
  | rows items => exact List.map_eq_nil_iff.mpr (List.map_eq_nil_iff.mp h)
  | row item => exact List.map_eq_nil_iff.mpr (List.map_eq_nil_iff.mp h)
  | flag b => rfl

theorem nodes_orgs_of_shown {data : GraphqlData orgEntity} (h : data.shown = []) :
    (Server.Data.orgs data).nodes = [] := by
  cases data with
  | rows items => exact List.map_eq_nil_iff.mpr (List.map_eq_nil_iff.mp h)
  | row item => exact List.map_eq_nil_iff.mpr (List.map_eq_nil_iff.mp h)
  | flag b => rfl

/-- Without a caller it does neither. -/
theorem operation_anonymous {op : Operation} {data : Server.Data}
    (h : server.operation none none ⟨true, none⟩ seed op s = .ok (data, s')) :
    data.nodes = [] ∧ s' = s := by
  have husers : ∀ op : GraphqlOp (server.usersSurface seed),
      server.usersGraphql none ⟨true, none⟩ seed op s = .ok (data, s') →
        data.nodes = [] ∧ s' = s := by
    intro op h
    rw [Server.usersGraphql, bind_eq_ok] at h
    obtain ⟨⟨data, users⟩, hresolve, h⟩ := h
    cases h
    obtain ⟨hshown, hsame⟩ := resolve_anonymous hresolve
    exact ⟨nodes_users_of_shown hshown, congrArg (Store.mk · s.orgs) hsame⟩
  have horgs : ∀ op : GraphqlOp (server.orgsSurface seed),
      server.orgsGraphql none ⟨true, none⟩ seed op s = .ok (data, s') →
        data.nodes = [] ∧ s' = s := by
    intro op h
    rw [Server.orgsGraphql, bind_eq_ok] at h
    obtain ⟨⟨data, orgs⟩, hresolve, h⟩ := h
    obtain ⟨hshown, hsame⟩ := resolve_anonymous hresolve
    simp only at h
    split at h
    · cases h
    · cases h
      exact ⟨nodes_orgs_of_shown hshown, congrArg (Store.mk s.users) hsame⟩
  cases op with
  | users => exact husers _ h
  | updateUser id input => exact husers _ h
  | deleteUser id => exact husers _ h
  | orgs => exact horgs _ h
  | org id => exact horgs _ h
  | createOrg input => exact horgs _ h
  | updateOrg id input => exact horgs _ h
  | deleteOrg id => exact horgs _ h
  | user id =>
    obtain ⟨rfl, hnone | ⟨model, ability, -, hability, -⟩⟩ := userQuery_eq_ok h
    · exact ⟨hnone, rfl⟩
    · cases hability
  | createUser input => cases h

/-- A field shows its caller's objects, whichever they are below and whatever else is in its
batch. -/
theorem children_visible {field : Field} {batch : Batch} {parent n : Node}
    (h : n ∈ server.children ⟨true, some (abilityOf actor)⟩ field batch parent) :
    Visible actor n := by
  have husers : ∀ {items : List (Item userEntity)} {p : userEntity.Row → Bool},
      items = ((readableBy actor batch.store.users).filter p).map (shownAs user) →
      ∀ i ∈ items, OwnUser actor i.row := by
    rintro items p rfl i hi
    obtain ⟨r, hr, rfl⟩ := List.mem_map.mp hi
    exact ownUser_of_can (List.mem_filter.mp (List.mem_of_mem_filter hr)).2
  unfold Server.children at h
  split at h
  · rename_i item
    split at h
    · rename_i found hfound
      obtain ⟨i, hi, rfl⟩ := List.mem_map.mp h
      rw [Server.orgField, bind_eq_ok] at hfound
      obtain ⟨id, -, hfound⟩ := hfound
      cases hfound
      rw [byId_eq List.mem_cons_self, inScope_loaderScope] at hi
      obtain ⟨r, hr, rfl⟩ := List.mem_map.mp
        (List.mem_of_getLast? (Option.mem_toList.mp hi))
      exact ownOrg_of_can (List.mem_filter.mp (List.mem_of_mem_filter hr)).2
    · cases h
  · rename_i item
    split at h
    · rename_i found hfound
      obtain ⟨i, hi, rfl⟩ := List.mem_map.mp h
      unfold Server.namesakesField at hfound
      cases hfound
      rw [byName_eq List.mem_cons_self, inScope_loaderScope, Option.getD_some] at hi
      exact husers rfl i (List.mem_of_mem_filter hi)
    · cases h
  · rename_i item
    split at h
    · rename_i found hfound
      obtain ⟨i, hi, rfl⟩ := List.mem_map.mp h
      rw [Server.usersField, bind_eq_ok] at hfound
      obtain ⟨id, -, hfound⟩ := hfound
      cases hfound
      rw [byOrg_eq List.mem_cons_self, inScope_loaderScope, Option.getD_some] at hi
      exact husers rfl i hi
    · cases h
  · cases h

theorem expand_visible (selection : Selection) (parents : List Node) :
    ∀ n ∈ server.expand ⟨true, some (abilityOf actor)⟩ selection parents, Visible actor n := by
  induction selection generalizing parents with
  | nothing => exact nofun
  | field field batch below next ihBelow ihNext =>
    intro n hn
    rw [Server.expand, List.append_assoc, List.mem_append, List.mem_append] at hn
    rcases hn with hn | hn | hn
    · obtain ⟨parent, -, hn⟩ := List.mem_flatMap.mp hn
      exact children_visible hn
    · exact ihBelow _ n hn
    · exact ihNext _ n hn

/-- Where there are no objects there are no fields. -/
theorem expand_nil (ambient : Ambient) (selection : Selection) :
    server.expand ambient selection [] = [] := by
  induction selection with
  | nothing => rfl
  | field field batch below next ihBelow ihNext =>
    rw [Server.expand, List.flatMap_nil, ihBelow, ihNext]
    rfl

theorem runBatch_caller (batch : List Selected) (s : Store) :
    (∀ nodes, .ok nodes ∈ (server.runBatch (some (abilityOf actor)) (some actor)
        ⟨true, some (abilityOf actor)⟩ batch s).1 → ∀ n ∈ nodes, Visible actor n) ∧
      Changes server actor s (server.runBatch (some (abilityOf actor)) (some actor)
        ⟨true, some (abilityOf actor)⟩ batch s).2 := by
  induction batch generalizing s with
  | nil => exact ⟨nofun, .refl s⟩
  | cons selected batch ih =>
    rw [Server.runBatch]
    cases hrun : server.runSelected (some (abilityOf actor)) (some actor)
        ⟨true, some (abilityOf actor)⟩ selected s with
    | error e =>
      refine ⟨fun nodes hnodes => ?_, (ih s).2⟩
      rcases List.mem_cons.mp hnodes with hnodes | hnodes
      · cases hnodes
      · exact (ih s).1 nodes hnodes
    | ok out =>
      rw [Server.runSelected, bind_eq_ok] at hrun
      obtain ⟨⟨data, s₁⟩, hop, hrun⟩ := hrun
      cases hrun
      obtain ⟨hnodes, hchanges⟩ := operation_eq_ok hop
      refine ⟨fun nodes hmem => ?_, hchanges.trans (ih s₁).2⟩
      rcases List.mem_cons.mp hmem with hmem | hmem
      · cases hmem
        intro n hn
        rcases List.mem_append.mp hn with hn | hn
        · exact hnodes n hn
        · exact expand_visible _ _ n hn
      · exact (ih s₁).1 nodes hmem

theorem runBatch_anonymous (batch : List Selected) (s : Store) :
    (∀ nodes, .ok nodes ∈ (server.runBatch none none ⟨true, none⟩ batch s).1 → nodes = []) ∧
      (server.runBatch none none ⟨true, none⟩ batch s).2 = s := by
  induction batch generalizing s with
  | nil => exact ⟨nofun, rfl⟩
  | cons selected batch ih =>
    rw [Server.runBatch]
    cases hrun : server.runSelected none none ⟨true, none⟩ selected s with
    | error e =>
      refine ⟨fun nodes hnodes => ?_, (ih s).2⟩
      rcases List.mem_cons.mp hnodes with hnodes | hnodes
      · cases hnodes
      · exact (ih s).1 nodes hnodes
    | ok out =>
      rw [Server.runSelected, bind_eq_ok] at hrun
      obtain ⟨⟨data, s₁⟩, hop, hrun⟩ := hrun
      cases hrun
      obtain ⟨hnodes, rfl⟩ := operation_anonymous hop
      refine ⟨fun nodes hmem => ?_, (ih s₁).2⟩
      rcases List.mem_cons.mp hmem with hmem | hmem
      · cases hmem
        rw [hnodes, expand_nil]
        rfl
      · exact (ih s₁).1 nodes hmem

/-- **What GraphQL shows**, at any depth. -/
theorem graphql_visible {batch : Except PoemError (List Selected)} {status : Nat}
    {results : List (Except GraphqlError (List Node))}
    (h : (server.graphql now authorization batch s).1 = .ok ⟨status, .json results⟩) {nodes}
    (hnodes : .ok nodes ∈ results) {n : Node} (hn : n ∈ nodes) :
    ∃ actor, server.caller now authorization = some actor ∧ Visible actor n := by
  unfold Server.graphql at h
  rcases scopeOf_arriving server now authorization with ⟨actor, hcaller, hscope⟩ | ⟨-, hscope⟩
  · rw [hscope] at h
    cases batch with
    | error e => cases h
    | ok batch =>
      cases h
      exact ⟨actor, hcaller, (runBatch_caller batch s).1 nodes hnodes n hn⟩
  · rw [hscope] at h
    cases batch with
    | error e => cases h
    | ok batch =>
      cases h
      rw [(runBatch_anonymous batch s).1 nodes hnodes] at hn
      cases hn

/-- **What GraphQL writes**, in a whole batch. -/
theorem graphql_effect (batch : Except PoemError (List Selected)) :
    Effect server (server.caller now authorization) s
      (server.graphql now authorization batch s).2 := by
  unfold Server.graphql
  rcases scopeOf_arriving server now authorization with ⟨actor, hcaller, hscope⟩ | ⟨hcaller, hscope⟩
  · rw [hscope]
    cases batch with
    | error e => exact Effect.refl _ _
    | ok batch =>
      rw [hcaller]
      exact (runBatch_caller batch s).2
  · rw [hscope]
    cases batch with
    | error e => exact Effect.refl _ _
    | ok batch =>
      rw [hcaller]
      exact (runBatch_anonymous batch s).2

/-! ## The gateway -/

/-- What an upgrade captures. -/
theorem upgrade_eq_ok {captured : Ambient}
    (h : server.upgrade now authorization = .ok captured) :
    ∃ actor, server.caller now authorization = some actor ∧
      captured = ⟨true, some (abilityOf actor)⟩ := by
  unfold Server.upgrade at h
  rcases runGuards_arriving server now authorization with
    ⟨actor, hcaller, hguards⟩ | ⟨-, refusal, hguards⟩
  · rw [hguards] at h
    cases h
    exact ⟨actor, hcaller, rfl⟩
  · rw [hguards] at h
    cases h

/-- **What the gateway shows**: the users of the organisation of whoever opened the socket. -/
theorem gatewayList_rows (server : Server EK DK) (actor : Claims) (s : Store) :
    (server.gatewayList ⟨true, some (abilityOf actor)⟩ s).map Item.row =
      usersOf actor.orgId s.users := by
  have hlist : CrudService.list ⟨true, some (abilityOf actor)⟩ (s.usersDb server.sql) s.users =
      .ok (s.users.select server.sql ((abilityOf actor).conditionFor .read userEntity.type)) :=
    CrudService.list_eq_ok.mpr ⟨rfl, rfl⟩
  rw [Server.gatewayList, hlist]
  show ((s.users.select server.sql _).map (shownAs user)).map Item.row = _
  rw [List.map_map, Table.select, usersOf]
  refine (List.map_id _).trans (List.filter_congr fun r _ => ?_)
  rw [Bool.eq_iff_iff, decide_eq_true_iff, decide_eq_true_iff, keeps_iff, can_user_iff]
  simp

end Graphql

end Nestrs.Api
