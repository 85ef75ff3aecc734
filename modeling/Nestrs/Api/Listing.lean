import Nestrs.Api.Consistent

/-!
# What a caller reads of the users, exactly

In every run from a consistent database: the four ways to read the users show the caller all users
of its organisation and no others. What they show of a user differs. The policy lets a caller who is
no admin see two fields, and the shaper of the generated REST list is what strips the others. The
hand-written `get` has no shaper, and neither GraphQL nor the gateway masks anything, so that the
email of a user is shown by each of these.

Results:
* `mask_read`: the fields that the policy leaves of a user;
* **`users_read_exactly`**.
-/

namespace Nestrs.Api

open Nestrs.Lib Nestrs.Authz Nestrs.Orm Nestrs.Http Nestrs.Crud Nestrs.Resource Nestrs.Auth

variable {EK DK : Type}

/-- A user with all of its fields. -/
def fullJson (r : userEntity.Row) : Json :=
  .object [("id", .string (hyphenated (uuidOf r "id"))),
    ("org_id", .string (hyphenated (uuidOf r "org_id"))), ("name", .string (textOf r "name")),
    ("email", .string (textOf r "email"))]

/-- A user with the fields that are for everybody. -/
def publicJson (r : userEntity.Row) : Json :=
  .object [("id", .string (hyphenated (uuidOf r "id"))), ("name", .string (textOf r "name"))]

/-- A user in the REST list of a caller. -/
def listedAs (actor : Claims) (r : userEntity.Row) : Item userEntity :=
  ⟨r, if actor.isAdmin then fullJson r else publicJson r⟩

section Row

variable {r model : userEntity.Row} {actor : Claims}

theorem get_uuidOf {c : Column} (h : uuidType.Holds (r.get c)) :
    r.get c = .uuid (some (uuidOf r c)) := by
  obtain ⟨hvariant, hnull⟩ := h
  have hnotNull := hnull rfl
  unfold uuidOf
  cases hget : r.get c with
  | uuid v =>
    cases v with
    | none => simp [hget, Value.isNull] at hnotNull
    | some u => rfl
  | _ => simp [hget, Value.variant, uuidType] at hvariant

theorem get_textOf {c : Column} (h : stringType.Holds (r.get c)) :
    r.get c = .string (some (textOf r c)) := by
  obtain ⟨hvariant, hnull⟩ := h
  have hnotNull := hnull rfl
  unfold textOf
  cases hget : r.get c with
  | string v =>
    cases v with
    | none => simp [hget, Value.isNull] at hnotNull
    | some s => rfl
  | _ => simp [hget, Value.variant, stringType] at hvariant

theorem columnTypes_user : user.columnTypes =
    [("id", uuidType), ("org_id", uuidType), ("name", stringType), ("email", stringType)] := rfl

/-- The columns of a user that is of its type. -/
theorem columns_of_typed (h : user.Typed r) :
    r.get "id" = .uuid (some (uuidOf r "id")) ∧ r.get "org_id" = .uuid (some (uuidOf r "org_id")) ∧
      r.get "name" = .string (some (textOf r "name")) ∧
      r.get "email" = .string (some (textOf r "email")) := by
  unfold Exposed.Typed at h
  rw [columnTypes_user] at h
  simp only [List.forall_mem_cons] at h
  obtain ⟨hid, horg, hname, hemail, -⟩ := h
  exact ⟨get_uuidOf hid, get_uuidOf horg, get_textOf hname, get_textOf hemail⟩

theorem output_user (h : user.Typed r) : user.output r = fullJson r := by
  obtain ⟨hid, horg, hname, hemail⟩ := columns_of_typed h
  show Json.object [("id", user.outputField r ⟨"id", uuidType, false, false, false, true, []⟩),
    ("org_id", user.outputField r ⟨"org_id", uuidType, false, false, false, false, []⟩),
    ("name", stringType.serialize (r.get "name")),
    ("email", stringType.serialize (r.get "email"))] = fullJson r
  unfold Exposed.outputField
  simp only [hid, horg, hname, hemail]
  rfl

theorem serialize_user (h : user.Typed r) : user.serialize r = some (fullJson r) := by
  obtain ⟨hid, horg, hname, hemail⟩ := columns_of_typed h
  unfold Exposed.serialize
  rw [columnTypes_user]
  simp only [List.map_cons, List.map_nil, hid, horg, hname, hemail]
  rfl

/-- A user is read back as it was. -/
theorem deserialize_user (h : user.Typed r) :
    ∃ model, user.deserialize (user.output r) = some model ∧
      ∀ c ∈ userEntity.columns, model.get c = r.get c := by
  refine (user.parsed_back_iff h).mpr fun f hf hcolumn hskip => ?_
  simp only [user, List.mem_cons, List.not_mem_nil, or_false] at hf
  rcases hf with rfl | rfl | rfl | rfl | rfl
  · cases hskip
  · cases hskip
  · cases hskip
  · cases hskip
  · cases hcolumn

theorem typed_congr (h : user.Typed r)
    (hsame : ∀ c ∈ userEntity.columns, model.get c = r.get c) : user.Typed model := by
  intro c hc
  rw [hsame c.1 (user.columns_eq ▸ List.mem_map_of_mem hc)]
  exact h c hc

theorem fullJson_congr (hsame : ∀ c ∈ userEntity.columns, model.get c = r.get c) :
    fullJson model = fullJson r := by
  unfold fullJson uuidOf textOf
  rw [hsame "id" (by decide), hsame "org_id" (by decide), hsame "name" (by decide),
    hsame "email" (by decide)]

/-- The fields that the policy lets a caller see of a user of its organisation. -/
theorem permittedFields_read (hown : OwnUser actor r) :
    (abilityOf actor).permittedFields .read r =
      if actor.isAdmin then .all else .only ["id", "name"].toFinset := by
  have hmatches : (ownOrg "org_id" actor).matches r.get = true := matches_ownOrg.mpr hown
  unfold Ability.permittedFields Ability.rulesFor abilityOf
  rw [if_neg (by decide), rules_buildAbility, rules_buildAbility]
  unfold AppAbility.define
  by_cases hadmin : actor.isAdmin = true
  · simp [hadmin, hmatches, RuleSpec.can, RuleSpec.new, RuleSpec.when, RuleSpec.rule, userEntity,
      orgEntity, Ability.permittedLoop]
  · simp [hadmin, hmatches, RuleSpec.can, RuleSpec.new, RuleSpec.when, RuleSpec.withFields,
      RuleSpec.rule, userEntity, orgEntity, Ability.permittedLoop]

/-- **The mask of a read**, on a user as it was parsed back. -/
theorem mask_read (hr : user.Typed r) (hown : OwnUser actor r)
    (hsame : ∀ c ∈ userEntity.columns, model.get c = r.get c) :
    (abilityOf actor).mask user.serialize .read model =
      if actor.isAdmin then fullJson r else publicJson r := by
  have hmodel : OwnUser actor model := (hsame "org_id" (by decide)).trans hown
  unfold Ability.mask
  rw [serialize_user (typed_congr hr hsame), fullJson_congr hsame, permittedFields_read hmodel]
  by_cases hadmin : actor.isAdmin = true
  · rw [if_pos hadmin, if_pos hadmin]
    rfl
  · rw [if_neg hadmin, if_neg hadmin]
    simp [fullJson, publicJson]

end Row

/-! ## The four ways -/

section Ways

variable {server : Server EK DK} {actor : Claims} {now : Nat} {authorization : Option String}
  {seed : Uuid} {s : Store}

/-- The rows of a list are parsed back with their columns. -/
theorem reparse_users {rows : List userEntity.Row} (h : ∀ r ∈ rows, user.Typed r) :
    ∃ models, reparse (server.usersSurface seed) (rows.map (item (server.usersSurface seed))) =
        some models ∧ models.map Prod.fst = rows ∧
      ∀ m ∈ models, ∀ c ∈ userEntity.columns, m.2.get c = m.1.get c := by
  induction rows with
  | nil => exact ⟨[], rfl, rfl, nofun⟩
  | cons r rows ih =>
    obtain ⟨models, hmodels, hrows, hsame⟩ := ih fun s hs => h s (List.mem_cons_of_mem r hs)
    obtain ⟨model, hmodel, hcolumns⟩ := deserialize_user (h r List.mem_cons_self)
    have hfirst : (server.usersSurface seed).deserialize (item (server.usersSurface seed) r).json =
        some model := hmodel
    refine ⟨(r, model) :: models, ?_, congrArg (r :: ·) hrows, fun m hm => ?_⟩
    · unfold reparse at hmodels ⊢
      rw [List.map_cons, List.mapM_cons, hmodels, hfirst]
      rfl
    · rcases List.mem_cons.mp hm with rfl | hm
      · exact hcolumns
      · exact hsame m hm

/-- The users that the filter of a caller keeps are those of its organisation. -/
theorem select_own (sql : Sql) (t : Table userEntity) :
    t.select sql ((abilityOf actor).conditionFor .read userEntity.type) =
      usersOf actor.orgId t := by
  unfold Table.select usersOf
  refine List.filter_congr fun r _ => ?_
  rw [Bool.eq_iff_iff, decide_eq_true_iff, decide_eq_true_iff, keeps_iff, can_user_iff]
  simp

theorem guards_of_caller (hcaller : server.caller now authorization = some actor) :
    runGuards (server.guards now) (arriving authorization) =
      (behind authorization actor, .ok ()) := by
  rcases runGuards_arriving server now authorization with
    ⟨actor', hcaller', hguards⟩ | ⟨hnone, -⟩
  · rw [hcaller] at hcaller'
    cases hcaller'
    exact hguards
  · rw [hcaller] at hnone
    cases hnone

/-- Every caller may list users. -/
theorem canClass_read (actor : Claims) :
    (abilityOf actor).canClass .read userEntity.type = true := by
  refine Ability.canClass_iff.mpr ?_
  by_cases hadmin : actor.isAdmin = true
  · refine ⟨_, mem_rulesFor.mpr ⟨(RuleSpec.can .read userEntity.type).when (ownOrg "org_id" actor),
      ?_, rfl, .inl rfl, rfl⟩, rfl⟩
    rw [AppAbility.define, if_pos hadmin]
    exact List.mem_cons_self
  · refine ⟨_, mem_rulesFor.mpr ⟨((RuleSpec.can .read userEntity.type).when
      (ownOrg "org_id" actor)).withFields ["id", "name"], ?_, rfl, .inl rfl, rfl⟩, rfl⟩
    rw [AppAbility.define, if_neg hadmin]
    exact List.mem_cons_self

/-- What the shaper makes of the users of a caller's organisation. -/
theorem maskResponse_users {rows : List userEntity.Row}
    (h : ∀ r ∈ rows, user.Typed r ∧ OwnUser actor r) :
    maskResponse (server.usersSurface seed) (abilityOf actor) .read
        ⟨200, .json (.rows (rows.map (item (server.usersSurface seed))) none)⟩ =
      ⟨200, .json (.rows (rows.map (listedAs actor)) none)⟩ := by
  obtain ⟨models, hmodels, rfl, hsame⟩ := reparse_users fun r hr => (h r hr).1
  have hown : ∀ m ∈ models, user.Typed m.1 ∧ OwnUser actor m.1 := fun m hm =>
    h m.1 (List.mem_map_of_mem hm)
  -- the shaper asks `can` again, of users that are the caller's to read
  have hkept : models.filter (fun m => (abilityOf actor).can .read m.2) = models :=
    List.filter_eq_self.mpr fun m hm => can_user_iff.mpr
      ⟨(hsame m hm "org_id" (by decide)).trans (hown m hm).2, .inr (.inl rfl)⟩
  have hshown : (models.map fun m => (⟨m.1, (abilityOf actor).mask user.serialize .read m.2⟩ :
      Item userEntity)) = (models.map Prod.fst).map (listedAs actor) := by
    rw [List.map_map]
    refine List.map_congr_left fun m hm => ?_
    exact congrArg (Item.mk m.1) (mask_read (hown m hm).1 (hown m hm).2 (hsame m hm))
  have hsuccess : (!isSuccess 200) = false := rfl
  unfold maskResponse
  simp only [hsuccess, Bool.false_eq_true, if_false]
  rw [hmodels]
  simp only [hkept]
  rw [← hshown]
  rfl

theorem mem_usersOf {orgId : Uuid} {t : Table userEntity} {r : userEntity.Row} :
    r ∈ usersOf orgId t ↔ r ∈ t.rows ∧ r.get "org_id" = .uuid (some orgId) := by
  rw [usersOf, List.mem_filter, decide_eq_true_iff]

/-- **The REST list**, masked. -/
theorem rest_list (hs : Consistent s) (hcaller : server.caller now authorization = some actor) :
    (server.users now seed authorization .list s).1 =
      .ok ⟨200, .json (.rows ((usersOf actor.orgId s.users).map (listedAs actor)) none)⟩ := by
  have hguards := guards_of_caller hcaller
  have hrun : (runGuards (server.guards now) (arriving authorization)).2 = .ok () := by rw [hguards]
  have hability : restAbility (server.guards now) (arriving authorization) =
      some (abilityOf actor) := by
    rw [restAbility, hguards]
    rfl
  have hroute : (route (server.usersSurface seed) (s.usersDb server.sql) true (server.guards now)
      (arriving authorization) .list s.users).1 = _ :=
    route_list hrun rfl hability (canClass_read actor) s.users
  rw [select_own] at hroute
  refine hroute.trans (congrArg Except.ok (maskResponse_users fun r hr => ?_))
  obtain ⟨hmem, hown⟩ := mem_usersOf.mp hr
  exact ⟨hs.users.typed r hmem, hown⟩

/-- What a caller gets of the user with an id: one of another organisation is forbidden, not
hidden. -/
def userAnswer (actor : Claims) (id : Uuid) (s : Store) :
    Except PoemError (Http.Response (Payload userEntity)) :=
  if versionNum id = 7 then
    match s.users.findById id with
    | none => .error ⟨404, ""⟩
    | some r =>
      if r.get "org_id" = .uuid (some actor.orgId) then .ok ⟨200, .json (.row ⟨r, fullJson r⟩)⟩
      else .error ⟨403, ""⟩
  else .error ⟨400, "path id must be a UUID v7"⟩

/-- The by-id load of a caller. -/
theorem access_read (actor : Claims) (id : Uuid) (t : Table userEntity) :
    CrudService.access ⟨true, some (abilityOf actor)⟩ .read id t =
      .ok (match t.findById id with
        | none => .missing
        | some r => if r.get "org_id" = .uuid (some actor.orgId) then .found r else .denied) := by
  unfold CrudService.access
  cases t.findById id with
  | none => rfl
  | some r =>
    have hcan : (abilityOf actor).can .read r = true ↔
        r.get "org_id" = .uuid (some actor.orgId) := by
      simp [can_user_iff]
    by_cases hown : r.get "org_id" = .uuid (some actor.orgId)
    · simp only [hcan.mpr hown, hown, if_true]
      rfl
    · simp only [Bool.eq_false_iff.mpr (mt hcan.mp hown), hown, if_false]
      rfl

theorem getUser_behind (hs : Consistent s) (id : Uuid) :
    getUser (behind authorization actor) (.ok id) s = userAnswer actor id s := by
  unfold getUser userAnswer behind
  by_cases hversion : versionNum id = 7
  · have hid : idV7Check id = .ok () := if_pos hversion
    rw [if_pos hversion]
    simp only [Bind.bind, Except.bind, hid, access_read, Except.mapError]
    cases hfind : s.users.findById id with
    | none => rfl
    | some r =>
      have hjson := output_user (hs.users.typed r (Table.mem_of_findById hfind).1)
      by_cases hown : r.get "org_id" = .uuid (some actor.orgId)
      · simp only [hown, if_true, shownAs, hjson]
      · simp only [hown, if_false]
  · have hid : idV7Check id = .error ⟨400, "path id must be a UUID v7"⟩ := if_neg hversion
    rw [if_neg hversion]
    simp only [Bind.bind, Except.bind, hid]

/-- **The REST get.** -/
theorem rest_get (hs : Consistent s) (hcaller : server.caller now authorization = some actor)
    (id : Uuid) :
    (server.users now seed authorization (.get (.ok id)) s).1 = userAnswer actor id s := by
  rw [Server.users, Server.guarded, guards_of_caller hcaller]
  simp only [getUser_behind hs]
  cases userAnswer actor id s with
  | ok resp => rfl
  | error e => rfl

/-- What is shown of the users of a caller's organisation when nothing is masked. -/
theorem shownAs_users (hs : Consistent s) (orgId : Uuid) :
    (usersOf orgId s.users).map (shownAs user) =
      (usersOf orgId s.users).map fun r => ⟨r, fullJson r⟩ :=
  List.map_congr_left fun r hr =>
    congrArg (Item.mk r) (output_user (hs.users.typed r (mem_usersOf.mp hr).1))

/-- **The GraphQL list.** -/
theorem graphql_list (hs : Consistent s) (hcaller : server.caller now authorization = some actor) :
    server.graphql now authorization (.ok [⟨.users, seed, .nothing⟩]) s =
      (.ok ⟨200, .json [.ok ((usersOf actor.orgId s.users).map fun r => .user ⟨r, fullJson r⟩)]⟩,
        s) := by
  have hscope : scopeOf (some (server.graphqlAuthGuard now)) (arriving authorization) =
      (behind authorization actor, some (abilityOf actor)) := by
    rcases scopeOf_arriving server now authorization with
      ⟨actor', hcaller', hscope⟩ | ⟨hnone, -⟩
    · rw [hcaller] at hcaller'
      cases hcaller'
      exact hscope
    · rw [hcaller] at hnone
      cases hnone
  have hgate : authorize (some (abilityOf actor)) .read userEntity.type = .ok () := by
    unfold authorize contextAbility
    exact if_pos (canClass_read actor)
  have hlist : resolve (server.usersSurface seed) (s.usersDb server.sql) (some (abilityOf actor))
      ⟨true, some (abilityOf actor)⟩ .list s.users = _ :=
    resolve_list_eq_ok.mpr ⟨⟨hgate, rfl⟩, rfl, rfl⟩
  rw [scopeFor, select_own] at hlist
  have hoperation : server.operation (some (abilityOf actor)) (some actor)
      ⟨true, some (abilityOf actor)⟩ seed .users s =
        .ok (.users (.rows ((usersOf actor.orgId s.users).map (shownAs user))), s) := by
    rw [Server.operation, Server.usersGraphql, hlist]
    rfl
  rw [shownAs_users hs] at hoperation
  rw [Server.graphql, hscope]
  simp only [behind, Server.runBatch, Server.runSelected, hoperation]
  simp [Bind.bind, Except.bind, Server.Data.nodes, Server.expand, Function.comp_def]

/-- **The gateway.** -/
theorem gateway_list (hs : Consistent s) :
    server.gatewayList ⟨true, some (abilityOf actor)⟩ s =
      (usersOf actor.orgId s.users).map fun r => ⟨r, fullJson r⟩ := by
  have hlist : CrudService.list ⟨true, some (abilityOf actor)⟩ (s.usersDb server.sql) s.users =
      .ok (usersOf actor.orgId s.users) :=
    CrudService.list_eq_ok.mpr ⟨rfl, (select_own _ _).symm⟩
  rw [Server.gatewayList, hlist]
  exact shownAs_users hs actor.orgId

/-- **What a caller reads of the users**, in every run from a consistent database. All four ways
show the users of its organisation and no others. The email and the organisation of a user are for
admins only in the REST list; everywhere else they are shown to every caller. -/
theorem users_read_exactly (server : Server EK DK) (w : World) (events : List Event)
    (hconsistent : Consistent w.store) (now : Nat) (authorization : Option String) (actor : Claims)
    (hcaller : server.caller now authorization = some actor) (seed : Uuid) :
    let s := (server.run w events).store
    (server.users now seed authorization .list s).1 =
        .ok ⟨200, .json (.rows ((usersOf actor.orgId s.users).map fun r =>
          ⟨r, if actor.isAdmin then fullJson r else publicJson r⟩) none)⟩ ∧
      (∀ id, (server.users now seed authorization (.get (.ok id)) s).1 =
        userAnswer actor id s) ∧
      server.graphql now authorization (.ok [⟨.users, seed, .nothing⟩]) s =
        (.ok ⟨200, .json [.ok ((usersOf actor.orgId s.users).map fun r => .user ⟨r, fullJson r⟩)]⟩,
          s) ∧
      ∃ captured, server.upgrade now authorization = .ok captured ∧
        server.gatewayList captured s =
          (usersOf actor.orgId s.users).map fun r => ⟨r, fullJson r⟩ := by
  have hs : Consistent (server.run w events).store := consistent_run events hconsistent
  refine ⟨rest_list hs hcaller, rest_get hs hcaller, graphql_list hs hcaller,
    ⟨true, some (abilityOf actor)⟩, ?_, gateway_list hs⟩
  rw [Server.upgrade, guards_of_caller hcaller]
  rfl

end Ways

/-! ## A database -/

/-- A server that knows one token. -/
def smallServer : Server Unit Unit where
  engine := smallEngine
  uuids := decimalUuids
  jwt := ⟨none, (), .edDSA, 3600⟩
  rules _ _ := true
  invalid _ := "invalid"
  parseUuid text := ((decimalUuids.parse text).map Except.ok).getD (.error "invalid")
  sql := .strict

def ann : Uuid := 0x018f0000000070008000000000000002

/-- An organisation and its user. -/
def demoStore : Store where
  users := .single (rowOf userEntity fun c =>
    if c = "id" then .uuid (some ann)
    else if c = "org_id" then .uuid (some demoOrg)
    else if c = "name" then .string (some "ann") else .string (some "ann@demo")) rfl
  orgs := .single (rowOf orgEntity fun c =>
    if c = "id" then .uuid (some demoOrg) else .string (some "demo")) rfl

theorem consistent_demoStore : Consistent demoStore where
  users := by
    refine ⟨fun r hr => ?_, fun r hr s hs _ => ?_⟩
    · obtain rfl := List.mem_singleton.mp hr
      rw [Exposed.Typed, columnTypes_user]
      simp only [List.forall_mem_cons]
      exact ⟨⟨rfl, fun _ => rfl⟩, ⟨rfl, fun _ => rfl⟩, ⟨rfl, fun _ => rfl⟩, ⟨rfl, fun _ => rfl⟩,
        fun _ h => absurd h List.not_mem_nil⟩
    · rw [List.mem_singleton.mp hr, List.mem_singleton.mp hs]
  orgs := by
    refine ⟨fun r hr => ?_, fun r hr s hs _ => ?_⟩
    · obtain rfl := List.mem_singleton.mp hr
      rw [Exposed.Typed, show org.columnTypes = [("id", uuidType), ("name", stringType)] from rfl]
      simp only [List.forall_mem_cons]
      exact ⟨⟨rfl, fun _ => rfl⟩, ⟨rfl, fun _ => rfl⟩, fun _ h => absurd h List.not_mem_nil⟩
    · rw [List.mem_singleton.mp hr, List.mem_singleton.mp hs]
  owned r hr := by
    obtain rfl := List.mem_singleton.mp hr
    rfl

/-- A caller who is no admin gets an email that the list keeps from it. -/
theorem demoStore_read :
    (smallServer.users 0 0 (some "Bearer at") .list demoStore).1 =
        .ok ⟨200, .json (.rows ((usersOf demoOrg demoStore.users).map fun r =>
          ⟨r, publicJson r⟩) none)⟩ ∧
      ∃ r, (smallServer.users 0 0 (some "Bearer at") (.get (.ok ann)) demoStore).1 =
        .ok ⟨200, .json (.row ⟨r, fullJson r⟩)⟩ := by
  have hread := users_read_exactly smallServer ⟨demoStore, [], []⟩ [] consistent_demoStore 0
    (some "Bearer at") ⟨demoOrg, [.user], 3600⟩ rfl 0
  exact ⟨hread.1, _, hread.2.1 ann⟩

/-- A socket is opened, and shown the user of its organisation. -/
theorem demoStore_shown : ∃ entry ∈ (smallServer.run ⟨demoStore, [], []⟩
      [.upgrade 0 (some "Bearer at"), .message 0]).shown,
    ∃ now authorization actor, smallServer.caller now authorization = some actor ∧
      entry.caller = some actor ∧
      match entry.node with
      | .user item => item.row.get "org_id" = .uuid (some actor.orgId)
      | .org item => actor.isAdmin = true ∨ item.row.get "id" = .uuid (some actor.orgId) := by
  have hcaller : smallServer.caller 0 (some "Bearer at") = some ⟨demoOrg, [.user], 3600⟩ := rfl
  have hupgrade : smallServer.upgrade 0 (some "Bearer at") =
      .ok ⟨true, some (abilityOf ⟨demoOrg, [.user], 3600⟩)⟩ := by
    rw [Server.upgrade, guards_of_caller hcaller]
    rfl
  have hrun : smallServer.run ⟨demoStore, [], []⟩ [.upgrade 0 (some "Bearer at"), .message 0] =
      smallServer.step (smallServer.step ⟨demoStore, [], []⟩ (.upgrade 0 (some "Bearer at")))
        (.message 0) := rfl
  have hshown : (smallServer.run ⟨demoStore, [], []⟩
      [.upgrade 0 (some "Bearer at"), .message 0]).shown =
        (usersOf demoOrg demoStore.users).map fun r =>
          ⟨some ⟨demoOrg, [.user], 3600⟩, .user ⟨r, fullJson r⟩⟩ := by
    rw [hrun]
    simp only [Server.step, hupgrade, hcaller, List.nil_append, List.getElem?_cons_zero]
    rw [gateway_list consistent_demoStore]
    simp
  obtain ⟨r, hr⟩ : ∃ r, r ∈ usersOf demoOrg demoStore.users :=
    ⟨_, List.mem_filter.mpr ⟨List.mem_singleton.mpr rfl, decide_eq_true rfl⟩⟩
  have hentry := hshown ▸ List.mem_map_of_mem hr
  exact ⟨_, hentry, shown_to_tenant smallServer demoStore _ _ hentry⟩

/-- A request of a caller who is no admin. -/
def denied : List Event := [.users 0 .succeeding 0 (some "Bearer at") (.delete (.ok ann))]

/-- It asks for the user to be deleted: nothing of its organisation, of another one or of the
organisations themselves is lost. -/
theorem demoStore_untouched :
    usersOf ann (smallServer.run ⟨demoStore, [], []⟩ denied).store.users =
        usersOf ann demoStore.users ∧
      usersOf demoOrg demoStore.users <+:
        usersOf demoOrg (smallServer.run ⟨demoStore, [], []⟩ denied).store.users ∧
      (smallServer.run ⟨demoStore, [], []⟩ denied).store.orgs = demoStore.orgs := by
  have hactor : ∀ event ∈ denied, ∀ actor, smallServer.actor event = some actor →
      actor = ⟨demoOrg, [.user], 3600⟩ := by
    intro event hevent actor h
    obtain rfl := List.mem_singleton.mp hevent
    exact (Option.some.inj h).symm
  have hother := tenant_untouched smallServer ⟨demoStore, [], []⟩ denied ann
  have hdemo := tenant_untouched smallServer ⟨demoStore, [], []⟩ denied demoOrg
  refine ⟨hother.1 fun event hevent actor h => ?_, hdemo.2.1 fun event hevent actor h _ => ?_,
    hdemo.2.2 fun event hevent actor h => ?_⟩
  · rw [hactor event hevent actor h]
    decide
  · rw [hactor event hevent actor h]
    rfl
  · rw [hactor event hevent actor h]
    rfl

end Nestrs.Api
