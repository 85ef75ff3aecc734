import Nestrs.Api.Requests

/-!
# The tenants of the api app

Every run of the app: requests of anybody to any of its surfaces, in any order, each in a
transaction that may fail in any way, sockets that are opened and stay open, and their messages. The
world keeps what it has shown to whom, next to the database and the sockets.

A message of a socket runs under the ability that its upgrade request had; nothing looks at the
token again.

Results:
* **`shown_to_tenant`**: whatever the app shows, it shows to somebody whose token has verified, and
  it is a user of that caller's organisation, or that organisation, or an organisation shown to an
  admin;
* **`tenant_untouched`**: the users of an organisation change only by requests of its own callers,
  and without an admin among these they only become more; without any admin the organisations stay
  as they are.
-/

namespace Nestrs.Api

open Nestrs.Lib Nestrs.Authz Nestrs.Orm Nestrs.Http Nestrs.Crud Nestrs.Resource Nestrs.Auth

variable {EK DK : Type}

/-! ## The world -/

/-- What the app has shown to a caller. -/
structure Shown where
  caller : Option Claims
  node : Node

/-- A socket: who opened it, and what its upgrade captured. -/
structure Socket where
  caller : Option Claims
  captured : Ambient

structure World where
  store : Store
  sockets : List Socket
  shown : List Shown

/-- What happens next: a request, with what its transaction does, or a message of a socket. -/
inductive Event where
  | users (now : Nat) (txn : Txn) (seed : Uuid) (authorization : Option String)
      (request : UsersRequest)
  | orgs (now : Nat) (txn : Txn) (seed : Uuid) (authorization : Option String)
      (request : OrgsRequest)
  | graphql (now : Nat) (txn : Txn) (method : Method) (authorization : Option String)
      (batch : Except PoemError (List Selected))
  | upgrade (now : Nat) (authorization : Option String)
  | message (socket : Nat)

/-- The objects of a REST response. -/
def payloadNodes {E : Entity schema} (toNode : Item E → Node) :
    Except PoemError (Http.Response (Payload E)) → List Node
  | .ok ⟨_, .json (.rows items _)⟩ => items.map toNode
  | .ok ⟨_, .json (.row item)⟩ => [toNode item]
  | _ => []

/-- The objects of a GraphQL response. -/
def resultNodes :
    Except PoemError (Http.Response (List (Except GraphqlError (List Node)))) → List Node
  | .ok ⟨_, .json results⟩ => results.flatMap fun
    | .ok nodes => nodes
    | .error _ => []
  | _ => []

namespace Server

variable (server : Server EK DK)

/-- Who is behind an event. -/
def actor : Event → Option Claims
  | .users now _ _ authorization _ | .orgs now _ _ authorization _
  | .graphql now _ _ authorization _ | .upgrade now authorization =>
    server.caller now authorization
  | .message _ => none

def step (w : World) (event : Event) : World :=
  let answered (store : Store) (nodes : List Node) : World :=
    { w with store, shown := nodes.map (Shown.mk (server.actor event)) ++ w.shown }
  match event with
  | .users now txn seed authorization request =>
    let (result, store) := intercept txn request.method
      (server.users now seed authorization request) w.store
    answered store (payloadNodes .user result)
  | .orgs now txn seed authorization request =>
    let (result, store) := intercept txn request.method
      (server.orgs now seed authorization request) w.store
    answered store (payloadNodes .org result)
  | .graphql now txn method authorization batch =>
    let (result, store) := intercept txn method (server.graphql now authorization batch) w.store
    answered store (resultNodes result)
  | .upgrade now authorization =>
    match server.upgrade now authorization with
    | .ok captured =>
      { w with sockets := w.sockets ++ [⟨server.caller now authorization, captured⟩] }
    | .error _ => w
  | .message i =>
    match w.sockets[i]? with
    | some socket =>
      { w with
        shown := (server.gatewayList socket.captured w.store).map
          (fun item => ⟨socket.caller, .user item⟩) ++ w.shown }
    | none => w

def run (w : World) (events : List Event) : World := events.foldl server.step w

end Server

/-! ## What is shown -/

section Reads

variable {server : Server EK DK} {w : World}

/-- What is true of all that has been shown, and of the sockets that are open. -/
structure Confined (server : Server EK DK) (w : World) : Prop where
  shown : ∀ entry ∈ w.shown, ∃ now authorization actor,
    server.caller now authorization = some actor ∧ entry.caller = some actor ∧
      Visible actor entry.node
  sockets : ∀ socket ∈ w.sockets, ∃ now authorization actor,
    server.caller now authorization = some actor ∧ socket.caller = some actor ∧
      socket.captured = ⟨true, some (abilityOf actor)⟩

theorem mem_payloadNodes {E : Entity schema} {toNode : Item E → Node}
    {result : Except PoemError (Http.Response (Payload E))} {n : Node}
    (h : n ∈ payloadNodes toNode result) : ∃ status payload item,
      result = .ok ⟨status, .json payload⟩ ∧ item.row ∈ payload.shown ∧ n = toNode item := by
  unfold payloadNodes at h
  split at h
  · obtain ⟨item, hitem, rfl⟩ := List.mem_map.mp h
    exact ⟨_, _, item, rfl, List.mem_map_of_mem hitem, rfl⟩
  · obtain rfl := List.mem_singleton.mp h
    exact ⟨_, _, _, rfl, List.mem_singleton_self _, rfl⟩
  · cases h

theorem mem_resultNodes
    {result : Except PoemError (Http.Response (List (Except GraphqlError (List Node))))} {n : Node}
    (h : n ∈ resultNodes result) : ∃ status results nodes,
      result = .ok ⟨status, .json results⟩ ∧ .ok nodes ∈ results ∧ n ∈ nodes := by
  unfold resultNodes at h
  split at h
  · obtain ⟨result, hresult, hn⟩ := List.mem_flatMap.mp h
    cases result with
    | ok nodes => exact ⟨_, _, nodes, rfl, hresult, hn⟩
    | error e => cases hn
  · cases h

/-- An answer that shows a caller's own objects. -/
theorem confined_answer {now : Nat} {authorization : Option String} {store : Store}
    {nodes : List Node} (h : Confined server w)
    (hnodes : ∀ n ∈ nodes, ∃ actor, server.caller now authorization = some actor ∧
      Visible actor n) :
    Confined server { w with
      store, shown := nodes.map (Shown.mk (server.caller now authorization)) ++ w.shown } := by
  refine ⟨fun entry hentry => ?_, h.sockets⟩
  rcases List.mem_append.mp hentry with hentry | hentry
  · obtain ⟨n, hn, rfl⟩ := List.mem_map.mp hentry
    obtain ⟨actor, hcaller, hvisible⟩ := hnodes n hn
    exact ⟨now, authorization, actor, hcaller, hcaller, hvisible⟩
  · exact h.shown entry hentry

/-- An event confines what it shows. -/
theorem confined_step (h : Confined server w) (event : Event) :
    Confined server (server.step w event) := by
  cases event with
  | users now txn seed authorization request =>
    refine confined_answer h fun n hn => ?_
    obtain ⟨status, payload, item, hresult, hitem, rfl⟩ := mem_payloadNodes hn
    obtain ⟨actor, hcaller, hown⟩ := users_visible (intercept_fst_ok hresult)
    exact ⟨actor, hcaller, hown item.row hitem⟩
  | orgs now txn seed authorization request =>
    refine confined_answer h fun n hn => ?_
    obtain ⟨status, payload, item, hresult, hitem, rfl⟩ := mem_payloadNodes hn
    obtain ⟨actor, hcaller, hown⟩ := orgs_visible (intercept_fst_ok hresult)
    exact ⟨actor, hcaller, hown item.row hitem⟩
  | graphql now txn method authorization batch =>
    refine confined_answer h fun n hn => ?_
    obtain ⟨status, results, nodes, hresult, hnodes, hmem⟩ := mem_resultNodes hn
    exact graphql_visible (intercept_fst_ok hresult) hnodes hmem
  | upgrade now authorization =>
    rw [Server.step]
    cases hupgrade : server.upgrade now authorization with
    | error refusal => exact h
    | ok captured =>
      obtain ⟨actor, hcaller, hcaptured⟩ := upgrade_eq_ok hupgrade
      refine ⟨h.shown, fun socket hsocket => ?_⟩
      rcases List.mem_append.mp hsocket with hsocket | hsocket
      · exact h.sockets socket hsocket
      · obtain rfl := List.mem_singleton.mp hsocket
        exact ⟨now, authorization, actor, hcaller, hcaller, hcaptured⟩
  | message i =>
    rw [Server.step]
    cases hsocket : w.sockets[i]? with
    | none => exact h
    | some socket =>
      obtain ⟨now, authorization, actor, hcaller, hopened, hcaptured⟩ :=
        h.sockets socket (List.mem_of_getElem? hsocket)
      refine ⟨fun entry hentry => ?_, h.sockets⟩
      rcases List.mem_append.mp hentry with hentry | hentry
      · obtain ⟨item, hitem, rfl⟩ := List.mem_map.mp hentry
        have hrow : item.row ∈ usersOf actor.orgId w.store.users := by
          rw [hcaptured] at hitem
          exact gatewayList_rows server actor w.store ▸ List.mem_map_of_mem hitem
        have hown : item.row.get "org_id" = .uuid (some actor.orgId) :=
          of_decide_eq_true (List.mem_filter.mp hrow).2
        exact ⟨now, authorization, actor, hcaller, hopened, hown⟩
      · exact h.shown entry hentry

theorem confined_run (h : Confined server w) (events : List Event) :
    Confined server (server.run w events) := by
  induction events generalizing w with
  | nil => exact h
  | cons event events ih => exact ih (confined_step h event)

/-- **What a tenant is shown.** In every run of the app from any database, whatever is in an answer,
at any depth, on any surface, is shown to somebody whose token has verified; and it is a user of
that caller's organisation, or that organisation, or else an organisation shown to an admin. -/
theorem shown_to_tenant (server : Server EK DK) (store : Store) (events : List Event) :
    ∀ entry ∈ (server.run ⟨store, [], []⟩ events).shown, ∃ now authorization actor,
      server.caller now authorization = some actor ∧ entry.caller = some actor ∧
        match entry.node with
        | .user item => item.row.get "org_id" = .uuid (some actor.orgId)
        | .org item => actor.isAdmin = true ∨ item.row.get "id" = .uuid (some actor.orgId) := by
  intro entry hentry
  have hstart : Confined server ⟨store, [], []⟩ :=
    ⟨fun _ h => absurd h List.not_mem_nil, fun _ h => absurd h List.not_mem_nil⟩
  obtain ⟨now, authorization, actor, hcaller, hentry, hvisible⟩ :=
    (confined_run hstart events).shown entry hentry
  refine ⟨now, authorization, actor, hcaller, hentry, ?_⟩
  cases hnode : entry.node with
  | user item =>
    rw [hnode] at hvisible
    exact hvisible
  | org item =>
    rw [hnode] at hvisible
    exact hvisible

end Reads

/-! ## What is written -/

section Writes

variable {server : Server EK DK} {w : World}

theorem effect_intercept {β : Type} {caller : Option Claims} {txn : Txn} {method : Method}
    {handler : Store → Except PoemError (Http.Response β) × Store} {s : Store}
    (h : Effect server caller s (handler s).2) :
    Effect server caller s (intercept txn method handler s).2 := by
  rcases intercept_cases txn method handler s with ⟨heq, -⟩ | ⟨-, hs⟩
  · rw [heq]
    exact h
  · rw [hs]
    exact Effect.refl caller s

/-- What an event does to the database. -/
theorem effect_step (server : Server EK DK) (w : World) (event : Event) :
    Effect server (server.actor event) w.store (server.step w event).store := by
  cases event with
  | users now txn seed authorization request => exact effect_intercept (users_effect request)
  | orgs now txn seed authorization request => exact effect_intercept (orgs_effect request)
  | graphql now txn method authorization batch => exact effect_intercept (graphql_effect batch)
  | upgrade now authorization =>
    have hsame : (server.step w (.upgrade now authorization)).store = w.store := by
      rw [Server.step]
      cases server.upgrade now authorization <;> rfl
    rw [hsame]
    exact Effect.refl _ _
  | message i =>
    rw [Server.step]
    cases w.sockets[i]? <;> rfl

theorem usersOf_prefix {t t' : Table userEntity} (orgId : Uuid) (h : t.rows <+: t'.rows) :
    usersOf orgId t <+: usersOf orgId t' := h.filter _

/-- **What a tenant's data is safe from.** In every run of the app, for every organisation: if none
of its callers acts, its users are as they were; if none of its admins does, they are as they were
with some more behind them; and if no admin of any organisation acts, the organisations are as they
were. -/
theorem tenant_untouched (server : Server EK DK) (w : World) (events : List Event)
    (orgId : Uuid) :
    ((∀ event ∈ events, ∀ actor, server.actor event = some actor → actor.orgId ≠ orgId) →
        usersOf orgId (server.run w events).store.users = usersOf orgId w.store.users) ∧
      ((∀ event ∈ events, ∀ actor, server.actor event = some actor → actor.orgId = orgId →
          actor.isAdmin = false) →
        usersOf orgId w.store.users <+: usersOf orgId (server.run w events).store.users) ∧
      ((∀ event ∈ events, ∀ actor, server.actor event = some actor → actor.isAdmin = false) →
        (server.run w events).store.orgs = w.store.orgs) := by
  induction events generalizing w with
  | nil => exact ⟨fun _ => rfl, fun _ => List.prefix_rfl, fun _ => rfl⟩
  | cons event events ih =>
    obtain ⟨ihOthers, ihAppends, ihOrgs⟩ := ih (server.step w event)
    have hstep := effect_step server w event
    refine ⟨fun h => ?_, fun h => ?_, fun h => ?_⟩
    · refine (ihOthers fun e he => h e (List.mem_cons_of_mem _ he)).trans ?_
      cases hactor : server.actor event with
      | none =>
        rw [hactor] at hstep
        exact congrArg (fun s : Store => usersOf orgId s.users) hstep
      | some actor =>
        rw [hactor] at hstep
        exact hstep.within.others orgId (h event List.mem_cons_self actor hactor)
    · refine List.IsPrefix.trans ?_ (ihAppends fun e he => h e (List.mem_cons_of_mem _ he))
      cases hactor : server.actor event with
      | none =>
        rw [hactor] at hstep
        rw [show (server.step w event).store = w.store from hstep]
      | some actor =>
        rw [hactor] at hstep
        by_cases hown : actor.orgId = orgId
        · exact usersOf_prefix orgId
            (hstep.within.appends (h event List.mem_cons_self actor hactor hown))
        · rw [hstep.within.others orgId hown]
    · refine (ihOrgs fun e he => h e (List.mem_cons_of_mem _ he)).trans ?_
      cases hactor : server.actor event with
      | none =>
        rw [hactor] at hstep
        exact congrArg Store.orgs hstep
      | some actor =>
        rw [hactor] at hstep
        exact hstep.within.orgs (h event List.mem_cons_self actor hactor)

end Writes

end Nestrs.Api
