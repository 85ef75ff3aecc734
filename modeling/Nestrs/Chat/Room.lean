import Nestrs.Ws.Connection
import Nestrs.Lib.Except
import Nestrs.Auth.Jwt

/-!
# The chat app

Model of `apps/chat/src`: the gateway `/ws`, its guard and the room behind it, over the connections
of `Ws.Connection`. Any number of sockets are open at once. The task of each goes through the states
of `GatewayEndpoint.next`, and what the app's own code does there is no longer arbitrary: the guard,
the hooks and the methods are those of the source. Nothing of it panics.

* What two tasks do may interleave at every lock and atomic: the counter of the presence, the lock
  around the history, the lock of the registry. `RoomService::record` gives the lock of the history
  back before it broadcasts, so that it is two steps (`record`, `announce`).
* Elsewhere (`elsewhere`) the writer of a socket dies, or the other gateway, `/notify`, does
  something in its own namespace.
* `serde_json` is a parameter (its texts, and what it says of a payload that it refuses). A derived
  `Deserialize` of a struct takes an object by the names of its fields, or an array by their places.

`announced` is no state of the app: it keeps the messages that have been broadcast, in order.

Results:
* `step_task_cases`: what a step of a task is;
* `session_refines`: every socket, with all that the others do, is a run of `serve_connection`;
* **`presence_exact`**: the presence counts the sockets that are in.
-/

namespace Nestrs.Chat

open Nestrs.Ws Nestrs.Lib

/-- `serde_json::Value`. -/
abbrev Value : Type := Authz.Json

/-- The namespaces of the two gateways. -/
inductive Namespace where
  | global
  | notify
deriving DecidableEq, Repr

/-! ## Messages -/

structure SendMessage where
  author : String
  text : String
deriving DecidableEq, Repr

structure ChatMessage where
  author : String
  text : String
deriving DecidableEq, Repr

/-- `Value::get`. -/
def member (name : String) : Value → Option Value
  | .object map => map.lookup name
  | _ => none

/-- `serde_json`, as the app uses it; `invalid` is its error about a payload. -/
structure Serde where
  json : Ws.Json Value
  invalid : Value → String

/-- `serde_json::from_value::<SendMessage>`. -/
def Serde.sendMessage (serde : Serde) (data : Value) : Except String SendMessage :=
  match data with
  | .object _ =>
    match (member "author" data).bind Auth.asString, (member "text" data).bind Auth.asString with
    | some author, some text => .ok ⟨author, text⟩
    | _, _ => .error (serde.invalid data)
  | .array [.string author, .string text] => .ok ⟨author, text⟩
  | _ => .error (serde.invalid data)

/-- `serde_json::to_value` of a message. -/
def SendMessage.toValue (m : SendMessage) : Value :=
  .object [("author", .string m.author), ("text", .string m.text)]

def ChatMessage.toValue (m : ChatMessage) : Value :=
  .object [("author", .string m.author), ("text", .string m.text)]

/-- `WsEnvelope::encode`. -/
def Serde.encode (serde : Serde) (event : String) (data : Value) : Option Frame :=
  serde.json.toString ⟨event, data⟩

/-- `ModeratedGuard::can_activate`. -/
def ModeratedGuard.canActivate (data : Value) : Except String Unit :=
  if (member "author" data).bind Auth.asString = some "banned" then
    .error "author `banned` is not allowed to post"
  else .ok ()

/-- `/ws`: one guard, on `message`, and no `SocketContext`. -/
def endpoint (serde : Serde) : GatewayEndpoint Namespace Value where
  server := .global
  guards event := if event = "message" then 1 else 0
  ctx := false
  json := serde.json

/-! ## The gateway -/

/-- A call of a method. -/
inductive Call where
  | onMessage (message : SendMessage)
  | history
  | presence
  | typing (message : SendMessage)
deriving DecidableEq, Repr

/-- `ChatGateway::dispatch`, up to the call: the method with its payload, or the error. -/
def dispatch (serde : Serde) (envelope : WsEnvelope Value) : Except String Call :=
  let payload := (serde.sendMessage envelope.data).mapError fun err =>
    "invalid payload for `" ++ envelope.event ++ "`: " ++ err
  if envelope.event = "message" then payload.map .onMessage
  else if envelope.event = "history" then .ok .history
  else if envelope.event = "presence" then .ok .presence
  else if envelope.event = "typing" then payload.map .typing
  else .error ("unknown event `" ++ envelope.event ++ "`")

/-- How far a method is: `on_message` has recorded, or it is through. -/
inductive Progress where
  | entered
  | recorded (message : ChatMessage)
  | finished
deriving DecidableEq, Repr

/-- A socket: its id, its outbox, where its task is. -/
structure Session where
  id : ConnId
  outbox : Nat
  pc : Pc Value
  progress : Progress

/-- The app: the registries, the sockets, and the room. -/
structure App where
  world : World Namespace
  sessions : List Session
  history : List ChatMessage
  present : Nat
  announced : List ChatMessage

/-- What the task of a socket does next. -/
inductive Move where
  | insert
  | call (hook : Hook)
  | returns (hook : Hook)
  | read (message : Incoming)
  | guard
  | dispatch
  | reply
  | send
  | disconnect
  | drained

/-- What happens next. -/
inductive Event where
  | upgrade
  | task (i : Nat) (move : Move)
  | record (i : Nat)
  | announce (i : Nat)
  | typing (i : Nat)
  | elsewhere (a : Action Namespace)

/-- The task of a socket, in the world. -/
def Session.task (session : Session) (world : World Namespace) : Task Namespace Value :=
  ⟨world, session.id, session.outbox, session.pc⟩

namespace App

variable (serde : Serde)

def init : App := ⟨World.init, [], [], 0, []⟩

/-- The reply of a dispatch, once its method is through. -/
def reply (s : App) (session : Session) (envelope : WsEnvelope Value) : Option (WsReply Value) :=
  match dispatch serde envelope with
  | .error message => some (.error message)
  | .ok .history => some (.reply (.array (s.history.map ChatMessage.toValue)))
  | .ok .presence => some (.reply (.number (toString s.present)))
  | .ok (.onMessage _) | .ok (.typing _) =>
    if session.progress = .finished then some .none else none

/-- The label of a move: what the guard and the methods return. -/
def label (s : App) (session : Session) : Move → Option (Label Namespace Value)
  | .insert => some .insert
  | .call hook => some (.call hook)
  | .returns hook => some (.returns hook)
  | .read message => some (.read message)
  | .guard =>
    match session.pc with
    | .guarding envelope _ => some (.guarded (ModeratedGuard.canActivate envelope.data))
    | _ => none
  | .dispatch => some .dispatch
  | .reply =>
    match session.pc with
    | .dispatching envelope => (s.reply serde session envelope).map .replies
    | _ => none
  | .send => some .send
  | .disconnect => some .disconnect
  | .drained => some .drained

/-- `client.join("lobby")`, when `on_connect` is called. -/
def joined (id : ConnId) : Move → List (Action Namespace)
  | .call .onConnect => [.join .global id "lobby"]
  | _ => []

/-- `connected` and `disconnected`, before the hooks return. -/
def presentAfter (present : Nat) : Move → Nat
  | .returns .onConnect => (present + 1) % 2 ^ 64
  | .returns .onDisconnect => (present + (2 ^ 64 - 1)) % 2 ^ 64
  | _ => present

/-- A method is entered when it is dispatched. -/
def progressAfter (progress : Progress) : Move → Progress
  | .dispatch => .entered
  | _ => progress

/-- One step. -/
def step (s : App) : Event → Option App
  | .upgrade =>
    let t : Task Namespace Value := Task.start (endpoint serde) s.world
    some { s with
      world := t.world
      sessions := s.sessions ++ [⟨t.id, t.outbox, t.pc, .finished⟩] }
  | .task i move => do
    let session ← s.sessions[i]?
    let label ← s.label serde session move
    let t ← (session.task s.world).step (endpoint serde) label
    some { s with
      world := (joined session.id move).foldl (fun w a => (w.step a).2) t.world
      sessions := s.sessions.set i { session with
        pc := t.pc
        progress := progressAfter session.progress move }
      present := presentAfter s.present move }
  | .record i => do
    let session ← s.sessions[i]?
    match session.pc, session.progress with
    | .dispatching envelope, .entered =>
      match dispatch serde envelope with
      | .ok (.onMessage message) =>
        let stored : ChatMessage := ⟨message.author, message.text⟩
        some { s with
          history := s.history ++ [stored]
          sessions := s.sessions.set i { session with progress := .recorded stored } }
      | _ => none
    | _, _ => none
  | .announce i => do
    let session ← s.sessions[i]?
    match session.progress with
    | .recorded stored =>
      some { s with
        world := (s.world.step (.broadcast .global (serde.encode "message" stored.toValue))).2
        announced := s.announced ++ [stored]
        sessions := s.sessions.set i { session with progress := .finished } }
    | _ => none
  | .typing i => do
    let session ← s.sessions[i]?
    match session.pc, session.progress with
    | .dispatching envelope, .entered =>
      match dispatch serde envelope with
      | .ok (.typing message) =>
        some { s with
          world := (s.world.step (.broadcast .global (serde.encode "typing" message.toValue))).2
          sessions := s.sessions.set i { session with progress := .finished } }
      | _ => none
    | _, _ => none
  | .elsewhere a =>
    if s.world.Enabled a ∧ a.namespace ≠ some .global then
      some { s with world := (s.world.step a).2 }
    else none

/-- **A run of the app.** -/
def run (s : App) (events : List Event) : Option App := events.foldlM (step serde) s

end App

/-! ## One step -/

section Step

variable {serde : Serde} {s s' : App} {i : Nat} {move : Move}

/-- What the label of a move can be. -/
theorem label_cases {session : Session} {label : Label Namespace Value}
    (h : s.label serde session move = some label) :
    label ≠ .panics ∧ (∀ a, label ≠ .other a) ∧
      ∀ hook, label = .returns hook ↔ move = .returns hook := by
  cases move with
  | returns hook =>
    cases h
    exact ⟨nofun, nofun, fun _ => ⟨fun h => by cases h; rfl, fun h => by cases h; rfl⟩⟩
  | guard =>
    unfold App.label at h
    simp only at h
    split at h
    · cases h
      exact ⟨nofun, nofun, fun _ => ⟨nofun, nofun⟩⟩
    · cases h
  | reply =>
    unfold App.label at h
    simp only at h
    split at h
    · obtain ⟨reply, -, rfl⟩ := Option.map_eq_some_iff.mp h
      exact ⟨nofun, nofun, fun _ => ⟨nofun, nofun⟩⟩
    · cases h
  | _ =>
    cases h
    exact ⟨nofun, nofun, fun _ => ⟨nofun, nofun⟩⟩

/-- **A step of a task** is one of `serve_connection`, with what the app's code does in it. -/
theorem step_task_cases (h : s.step serde (.task i move) = some s') :
    ∃ session label pc, s.sessions[i]? = some session ∧ s.label serde session move = some label ∧
      (endpoint serde).next (s.world.outboxes session.outbox).isOpen session.pc label = some pc ∧
      Stage.Step (Stage.of session.pc) label (Stage.of pc) ∧ label ≠ .panics ∧
      (session.task s.world).step (endpoint serde) label =
        some ⟨(session.task s.world).effect (endpoint serde) label, session.id, session.outbox,
          pc⟩ ∧
      s' = { s with
        world := (App.joined session.id move).foldl (fun w a => (w.step a).2)
          ((session.task s.world).effect (endpoint serde) label)
        sessions := s.sessions.set i { session with
          pc, progress := App.progressAfter session.progress move }
        present := App.presentAfter s.present move } := by
  unfold App.step at h
  simp only [Option.bind_eq_bind, Option.bind_eq_some_iff] at h
  obtain ⟨session, hsession, label, hlabel, t, ht, h⟩ := h
  obtain ⟨hpanics, hother, -⟩ := label_cases hlabel
  rcases task_step_cases ht with ⟨a, rfl, -⟩ | ⟨hstage, hresult⟩
  · exact absurd rfl (hother a)
  · have hnext : (endpoint serde).next (s.world.outboxes session.outbox).isOpen session.pc label =
        some t.pc := by
      unfold Task.step at ht
      split at ht
      · exact absurd rfl (hother _)
      · obtain ⟨pc, hnext, rfl⟩ := Option.map_eq_some_iff.mp ht
        exact hnext
    refine ⟨session, label, t.pc, hsession, hlabel, hnext, hstage, hpanics, ?_, ?_⟩
    · rw [ht, hresult]
      rfl
    · cases h
      rw [hresult]

theorem step_record_cases (h : s.step serde (.record i) = some s') :
    ∃ session envelope message, s.sessions[i]? = some session ∧
      session.pc = .dispatching envelope ∧ session.progress = .entered ∧
      dispatch serde envelope = .ok (.onMessage message) ∧
      s' = { s with
        history := s.history ++ [⟨message.author, message.text⟩]
        sessions := s.sessions.set i { session with
          progress := .recorded ⟨message.author, message.text⟩ } } := by
  unfold App.step at h
  simp only [Option.bind_eq_bind, Option.bind_eq_some_iff] at h
  obtain ⟨session, hsession, h⟩ := h
  split at h
  · rename_i envelope hpc hprogress
    split at h
    · rename_i message hdispatch
      cases h
      exact ⟨session, envelope, message, hsession, hpc, hprogress, hdispatch, rfl⟩
    · cases h
  · cases h

theorem step_announce_cases (h : s.step serde (.announce i) = some s') :
    ∃ session stored, s.sessions[i]? = some session ∧ session.progress = .recorded stored ∧
      s' = { s with
        world := (s.world.step (.broadcast .global (serde.encode "message" stored.toValue))).2
        announced := s.announced ++ [stored]
        sessions := s.sessions.set i { session with progress := .finished } } := by
  unfold App.step at h
  simp only [Option.bind_eq_bind, Option.bind_eq_some_iff] at h
  obtain ⟨session, hsession, h⟩ := h
  split at h
  · rename_i stored hprogress
    cases h
    exact ⟨session, stored, hsession, hprogress, rfl⟩
  · cases h

theorem step_typing_cases (h : s.step serde (.typing i) = some s') :
    ∃ session envelope message, s.sessions[i]? = some session ∧
      session.pc = .dispatching envelope ∧ session.progress = .entered ∧
      dispatch serde envelope = .ok (.typing message) ∧
      s' = { s with
        world := (s.world.step (.broadcast .global (serde.encode "typing" message.toValue))).2
        sessions := s.sessions.set i { session with progress := .finished } } := by
  unfold App.step at h
  simp only [Option.bind_eq_bind, Option.bind_eq_some_iff] at h
  obtain ⟨session, hsession, h⟩ := h
  split at h
  · rename_i envelope hpc hprogress
    split at h
    · rename_i message hdispatch
      cases h
      exact ⟨session, envelope, message, hsession, hpc, hprogress, hdispatch, rfl⟩
    · cases h
  · cases h

theorem step_elsewhere_cases {a : Action Namespace} (h : s.step serde (.elsewhere a) = some s') :
    s.world.Enabled a ∧ a.namespace ≠ some .global ∧
      s' = { s with world := (s.world.step a).2 } := by
  unfold App.step at h
  simp only at h
  split at h
  · rename_i hother
    cases h
    exact ⟨hother.1, hother.2, rfl⟩
  · cases h

end Step

/-! ## The sockets, each by itself -/

/-- The event allocates an id of the namespace. -/
def Event.opens (ns : Namespace) : Event → Bool
  | .upgrade => Namespace.global = ns
  | .elsewhere a => a.allocates ns
  | _ => false

/-- The number of sockets opened in a namespace. -/
def opened (ns : Namespace) (events : List Event) : Nat := events.countP (Event.opens ns)

/-- What is true along a run: the registries have gone through steps that were enabled, and every
socket, with all that happened beside it, is a run of `serve_connection`. -/
structure Served (serde : Serde) (events : List Event) (s : App) : Prop where
  world : ∃ actions, Valid actions ∧ s.world = after actions ∧
    ∀ ns, allocations ns actions = opened ns events
  length : s.sessions.length = opened .global events
  ids : ∀ (i : Nat) (session : Session), s.sessions[i]? = some session → session.id = i
  tasks : ∀ (i : Nat) (session : Session), s.sessions[i]? = some session →
    ∃ w labels, Task.run (endpoint serde) w labels = some (session.task s.world) ∧
      .panics ∉ labels

section Served

variable {serde : Serde} {events : List Event} {s s' : App} {session : Session}
  {pre actions : List (Action Namespace)}

theorem after_append (pre actions : List (Action Namespace)) :
    after (pre ++ actions) = actions.foldl (fun w a => (w.step a).2) (after pre) := by
  unfold after
  rw [List.foldl_append]

/-- What happens beside a socket belongs to its run. -/
theorem run_beside (hvalid : Valid (pre ++ actions))
    (hforeign : ∀ a ∈ actions, a.Foreign .global session.id)
    (hrun : ∃ w labels, Task.run (endpoint serde) w labels = some (session.task (after pre)) ∧
      .panics ∉ labels) :
    ∃ w labels, Task.run (endpoint serde) w labels =
      some (session.task (after (pre ++ actions))) ∧ .panics ∉ labels := by
  induction actions using List.reverseRecOn with
  | nil => simpa using hrun
  | append_singleton actions a ih =>
    rw [← List.append_assoc] at hvalid ⊢
    obtain ⟨w, labels, hlabels, hpanics⟩ := ih hvalid.append_left fun b hb =>
      hforeign b (List.mem_append_left _ hb)
    have henabled : (after (pre ++ actions)).Enabled a := hvalid _ a [] rfl
    have ha : a.Foreign .global session.id := hforeign a (by simp)
    refine ⟨w, labels ++ [.other a], (run_snoc labels (.other a)).mpr ⟨_, hlabels, ?_⟩, ?_⟩
    · rw [after_snoc]
      exact if_pos ⟨henabled, ha⟩
    · simpa using hpanics

theorem valid_append (hvalid : Valid pre) (h : ∀ a ∈ actions, ∀ w : World Namespace, w.Enabled a) :
    Valid (pre ++ actions) := by
  induction actions using List.reverseRecOn with
  | nil => simpa using hvalid
  | append_singleton actions a ih =>
    rw [← List.append_assoc]
    exact (ih fun b hb => h b (List.mem_append_left _ hb)).snoc (h a (by simp) _)

theorem served_init : Served serde [] App.init where
  world := by
    refine ⟨[], fun pre a post h => ?_, rfl, fun ns => rfl⟩
    cases pre <;> cases h
  length := rfl
  ids _ _ h := nomatch h
  tasks _ _ h := nomatch h

theorem opened_snoc (ns : Namespace) (events : List Event) (e : Event) :
    opened ns (events ++ [e]) = opened ns events + if e.opens ns then 1 else 0 := by
  unfold opened
  rw [List.countP_append, List.countP_singleton]

/-- An event beside the sockets: it leaves each where it is, and steps of the registries follow that
are no socket's own. -/
theorem Served.beside (h : Served serde events s) {e : Event} (actions : List (Action Namespace))
    (hvalid : ∀ pre, Valid pre → s.world = after pre → Valid (pre ++ actions))
    (hforeign : ∀ a ∈ actions, ∀ id, a.Foreign .global id)
    (hcount : ∀ ns, allocations ns actions = if e.opens ns then 1 else 0)
    (hopens : e.opens .global = false)
    (hworld : s'.world = actions.foldl (fun w a => (w.step a).2) s.world)
    (hlength : s'.sessions.length = s.sessions.length)
    (hsame : ∀ (j : Nat) (session' : Session), s'.sessions[j]? = some session' →
      ∃ session, s.sessions[j]? = some session ∧ session'.task s.world = session.task s.world) :
    Served serde (events ++ [e]) s' := by
  obtain ⟨pre, hpre, hafter, hallocations⟩ := h.world
  have hmore := hvalid pre hpre hafter
  have hworld' : s'.world = after (pre ++ actions) := by rw [hworld, hafter, after_append]
  refine ⟨⟨pre ++ actions, hmore, hworld', fun ns => ?_⟩, ?_, fun j session' hj => ?_,
    fun j session' hj => ?_⟩
  · rw [opened_snoc, ← hallocations, ← hcount]
    exact List.countP_append
  · rw [hlength, h.length, opened_snoc, hopens]
    rfl
  · obtain ⟨session, hsession, htask⟩ := hsame j session' hj
    exact (congrArg Task.id htask).trans (h.ids j session hsession)
  · obtain ⟨session, hsession, htask⟩ := hsame j session' hj
    obtain ⟨w, labels, hrun, hpanics⟩ := h.tasks j session hsession
    rw [hworld']
    refine run_beside hmore (fun a ha => hforeign a ha _) ⟨w, labels, ?_, hpanics⟩
    rw [hrun, ← hafter, htask]

theorem foreign_of_ne {a : Action Namespace} (h : a.namespace ≠ some .global) (id : ConnId) :
    a.Foreign .global id := by
  cases a with
  | insert ns id' outbox => exact fun hsame => h (congrArg some hsame.1)
  | disconnect ns id' => exact fun hsame => h (congrArg some hsame.1)
  | reply ns id' frame => exact fun hsame => h (congrArg some hsame.1)
  | _ => trivial

theorem allocates_of_ne {a : Action Namespace} (h : a.namespace ≠ some .global) :
    a.allocates .global = false := by
  cases a with
  | allocate ns => exact decide_eq_false fun hns => h (congrArg some hns)
  | _ => rfl

/-- A socket that is put back with its task as it was. -/
theorem task_of_set {i : Nat} {session session₁ : Session} {w : World Namespace}
    (hsession : s.sessions[i]? = some session) (htask : session₁.task w = session.task w) (j : Nat)
    (session' : Session) (h : (s.sessions.set i session₁)[j]? = some session') :
    ∃ session, s.sessions[j]? = some session ∧ session'.task w = session.task w := by
  rw [List.getElem?_set] at h
  split at h
  · rename_i hij
    subst hij
    split at h
    · cases h
      exact ⟨session, hsession, htask⟩
    · cases h
  · exact ⟨session', h, rfl⟩

theorem getElem?_snoc {sessions : List Session} {last : Session} {j : Nat}
    (h : (sessions ++ [last])[j]? = some session) :
    sessions[j]? = some session ∨ j = sessions.length ∧ session = last := by
  rw [List.getElem?_append] at h
  split at h
  · exact .inl h
  · rw [List.getElem?_singleton] at h
    split at h
    · cases h
      exact .inr ⟨by omega, rfl⟩
    · cases h

theorem served_upgrade (h : Served serde events s)
    (hroom : opened .global (events ++ [.upgrade]) < 2 ^ 64)
    (hstep : s.step serde .upgrade = some s') :
    Served serde (events ++ [.upgrade]) s' := by
  cases hstep
  obtain ⟨pre, hpre, hafter, hallocations⟩ := h.world
  have hvalid : Valid (pre ++ [.allocate .global]) := hpre.snoc trivial
  have hworld : (s.world.step (.allocate .global)).2 = after (pre ++ [.allocate .global]) := by
    rw [hafter, after_snoc]
  rw [opened_snoc] at hroom
  have hnext : (s.world.servers .global).next = s.sessions.length := by
    rw [hafter, next_after (by rw [hallocations]; omega), hallocations, h.length]
  refine ⟨⟨_, hvalid, hworld, fun ns => ?_⟩, ?_, fun j session hj => ?_, fun j session hj => ?_⟩
  · rw [opened_snoc, ← hallocations, allocations_snoc]
    rfl
  · rw [opened_snoc, ← h.length]
    exact List.length_append
  · rcases getElem?_snoc hj with hj | ⟨rfl, rfl⟩
    · exact h.ids j session hj
    · exact hnext
  · rcases getElem?_snoc hj with hj | ⟨rfl, rfl⟩
    · obtain ⟨w, labels, hrun, hpanics⟩ := h.tasks j session hj
      rw [show (Task.start (endpoint serde) s.world : Task Namespace Value).world =
        after (pre ++ [.allocate .global]) from hworld]
      exact run_beside hvalid (by simp [Action.Foreign]) ⟨w, labels, hafter ▸ hrun, hpanics⟩
    · exact ⟨s.world, [], rfl, List.not_mem_nil⟩

/-- A step of a task takes at most one of the registries, which is no other socket's. -/
theorem own_actions {w w' : World Namespace} {labels : List (Label Namespace Value)}
    {label : Label Namespace Value} {t : Task Namespace Value} {pc : Pc Value}
    (hpre : Valid pre) (hafter : w = after pre)
    (hrun : Task.run (endpoint serde) w' labels = some t)
    (hw : t.world = w) (hstage : Stage.Step (Stage.of t.pc) label (Stage.of pc)) :
    ∃ own, Valid (pre ++ own) ∧ t.effect (endpoint serde) label = after (pre ++ own) ∧
      (∀ ns, allocations ns own = 0) ∧
      ∀ a ∈ own, ∀ id, id ≠ t.id → a.Foreign .global id := by
  have hstep : Stage.Step (Stage.of t.pc) label (Stage.of { t with pc }.pc) := hstage
  have heffect := effect_eq_step (traced_run hrun) hstep
  cases haction : t.action (endpoint serde) label with
  | none =>
    rw [haction] at heffect
    refine ⟨[], by simpa using hpre, ?_, fun ns => rfl, fun a ha => absurd ha List.not_mem_nil⟩
    rw [heffect, hw, hafter, List.append_nil]
  | some a =>
    rw [haction] at heffect
    obtain ⟨henabled, heffect⟩ := heffect
    rw [hw, hafter] at henabled
    refine ⟨[a], hpre.snoc henabled, ?_, fun ns => ?_, fun b hb id hid => ?_⟩
    · rw [heffect, hw, hafter, after_snoc]
    · simp [allocations, allocates_action haction]
    · obtain rfl := List.mem_singleton.mp hb
      unfold Task.action at haction
      split at haction
      · cases haction
        exact fun hsame => hid hsame.2.symm
      · split at haction
        · cases haction
          exact fun hsame => hid hsame.2.symm
        · cases haction
      · cases haction
        exact fun hsame => hid hsame.2.symm
      · cases haction
        trivial
      · cases haction

theorem joined_cases {id : ConnId} {move : Move} {a : Action Namespace}
    (h : a ∈ App.joined id move) : a = .join .global id "lobby" := by
  unfold App.joined at h
  split at h
  · exact List.mem_singleton.mp h
  · exact absurd h List.not_mem_nil

theorem served_task (h : Served serde events s) {i : Nat} {move : Move}
    (hstep : s.step serde (.task i move) = some s') :
    Served serde (events ++ [.task i move]) s' := by
  obtain ⟨session, label, pc, hsession, hlabel, hnext, hstage, hpanics, htask, rfl⟩ :=
    step_task_cases hstep
  obtain ⟨pre, hpre, hafter, hallocations⟩ := h.world
  obtain ⟨w, labels, hrun, hcalm⟩ := h.tasks i session hsession
  obtain ⟨own, hown, heffect, hnone, hforeign⟩ := own_actions hpre hafter hrun rfl hstage
  have hjoined : Valid (pre ++ own ++ App.joined session.id move) :=
    valid_append hown fun a ha w => by rw [joined_cases ha]; trivial
  have hworld : (App.joined session.id move).foldl (fun w a => (w.step a).2)
      ((session.task s.world).effect (endpoint serde) label) =
        after (pre ++ own ++ App.joined session.id move) := by
    rw [heffect, ← after_append]
  refine ⟨⟨_, hjoined, hworld, fun ns => ?_⟩, ?_, fun j session' hj => ?_, fun j session' hj => ?_⟩
  · have hrooms : allocations ns (App.joined session.id move) = 0 :=
      List.countP_eq_zero.mpr fun a ha => by rw [joined_cases ha]; simp [Action.allocates]
    rw [opened_snoc, ← hallocations]
    unfold allocations at hnone hrooms ⊢
    rw [List.countP_append, List.countP_append, hnone ns, hrooms]
    rfl
  · rw [opened_snoc, ← h.length]
    exact List.length_set
  · rw [List.getElem?_set] at hj
    split at hj
    · rename_i hij
      subst hij
      split at hj
      · cases hj
        exact h.ids i session hsession
      · cases hj
    · exact h.ids j session' hj
  · simp only [hworld]
    rw [List.getElem?_set] at hj
    split at hj
    · split at hj
      · cases hj
        refine run_beside hjoined (fun a ha => by rw [joined_cases ha]; trivial)
          ⟨w, labels ++ [label], (run_snoc labels label).mpr ⟨_, hrun, ?_⟩, ?_⟩
        · rw [htask, heffect]
          rfl
        · simp [hcalm, Ne.symm hpanics]
      · cases hj
    · rename_i hij
      obtain ⟨w', labels', hrun', hcalm'⟩ := h.tasks j session' hj
      rw [List.append_assoc] at hjoined ⊢
      refine run_beside hjoined (fun a ha => ?_) ⟨w', labels', hafter ▸ hrun', hcalm'⟩
      rcases List.mem_append.mp ha with ha | ha
      · refine hforeign a ha _ fun hsame => hij ?_
        rw [h.ids j session' hj] at hsame
        exact (hsame.trans (h.ids i session hsession)).symm
      · rw [joined_cases ha]
        trivial

/-- **Every event keeps this**, while the ids last. -/
theorem served_step (h : Served serde events s) {e : Event}
    (hroom : ∀ ns, opened ns (events ++ [e]) < 2 ^ 64) (hstep : s.step serde e = some s') :
    Served serde (events ++ [e]) s' := by
  have hbroadcast : ∀ encoded : Option Frame, ∀ pre, Valid pre → s.world = after pre →
      Valid (pre ++ [Action.broadcast Namespace.global encoded]) :=
    fun encoded pre hpre _ => hpre.snoc trivial
  have hforeign : ∀ encoded : Option Frame,
      ∀ a ∈ [Action.broadcast Namespace.global encoded], ∀ id, a.Foreign .global id := by
    intro encoded a ha id
    rw [List.mem_singleton.mp ha]
    trivial
  cases e with
  | upgrade => exact served_upgrade h (hroom .global) hstep
  | task i move => exact served_task h hstep
  | record i =>
    obtain ⟨session, envelope, message, hsession, -, -, -, rfl⟩ := step_record_cases hstep
    exact h.beside [] (fun pre hpre _ => by simpa using hpre)
      (fun a ha => absurd ha List.not_mem_nil) (fun ns => rfl) rfl rfl List.length_set
      (task_of_set hsession rfl)
  | announce i =>
    obtain ⟨session, stored, hsession, -, rfl⟩ := step_announce_cases hstep
    exact h.beside _ (hbroadcast _) (hforeign _) (fun ns => rfl) rfl rfl List.length_set
      (task_of_set hsession rfl)
  | typing i =>
    obtain ⟨session, envelope, message, hsession, -, -, -, rfl⟩ := step_typing_cases hstep
    exact h.beside _ (hbroadcast _) (hforeign _) (fun ns => rfl) rfl rfl List.length_set
      (task_of_set hsession rfl)
  | elsewhere a =>
    obtain ⟨henabled, hne, rfl⟩ := step_elsewhere_cases hstep
    refine h.beside [a] (fun pre hpre hafter => hpre.snoc (hafter ▸ henabled))
      (fun b hb id => ?_) (fun ns => ?_) (allocates_of_ne hne) rfl rfl
      fun j session' hj => ⟨session', hj, rfl⟩
    · rw [List.mem_singleton.mp hb]
      exact foreign_of_ne hne id
    · unfold allocations
      rw [List.countP_singleton]
      rfl

theorem app_run_snoc (events : List Event) (e : Event) :
    s.run serde (events ++ [e]) = some s' ↔
      ∃ s₁, s.run serde events = some s₁ ∧ s₁.step serde e = some s' := by
  unfold App.run
  simp [List.foldlM_append, Option.bind_eq_some_iff]

/-- The ids have not run out before. -/
theorem opened_lt {before after' : List Event} (h : ∀ ns, opened ns (before ++ after') < 2 ^ 64)
    (ns : Namespace) : opened ns before < 2 ^ 64 := by
  refine lt_of_le_of_lt ?_ (h ns)
  unfold opened
  rw [List.countP_append]
  exact Nat.le_add_right _ _

theorem served_run (hroom : ∀ ns, opened ns events < 2 ^ 64)
    (hrun : App.init.run serde events = some s) : Served serde events s := by
  induction events using List.reverseRecOn generalizing s with
  | nil =>
    cases hrun
    exact served_init
  | append_singleton events e ih =>
    obtain ⟨s₁, hs₁, hstep⟩ := (app_run_snoc events e).mp hrun
    exact served_step (ih (opened_lt hroom) hs₁) hroom hstep

/-- **Every socket is served as if it were alone.** In every run of the app, while the ids of the
namespaces last, the task of a socket is that of a run of `serve_connection` in which nothing panics
and all that the other sockets do is what others do; so it is registered, with its own outbox,
exactly from its insertion until it is removed. -/
theorem session_refines (hroom : ∀ ns, opened ns events < 2 ^ 64)
    (hrun : App.init.run serde events = some s) {i : Nat}
    (hsession : s.sessions[i]? = some session) :
    (∃ w labels, Task.run (endpoint serde) w labels =
      some ⟨s.world, session.id, session.outbox, session.pc⟩ ∧ .panics ∉ labels) ∧
    session.id = i ∧ session.pc ≠ .unwound ∧
    ((∃ conn, Registered s.world .global i conn) ↔ (Stage.of session.pc).live = true) ∧
    ∀ conn, Registered s.world .global i conn → conn.outbox = session.outbox := by
  have hserved := served_run hroom hrun
  obtain ⟨actions, hvalid, hafter, hallocations⟩ := hserved.world
  have hinv : Inv s.world := hafter ▸ inv_after hvalid fun ns => by
    rw [hallocations]
    exact hroom ns
  obtain ⟨w, labels, htask, hpanics⟩ := hserved.tasks i session hsession
  obtain rfl := hserved.ids i session hsession
  have htraced := traced_run htask
  have hcalm : Stage.of session.pc ≠ .unwound := fun h => hpanics (htraced.unwound.mp h)
  have hlive : (Stage.of session.pc).live = true →
      ∃ conn, Registered s.world .global session.id conn ∧ conn.outbox = session.outbox :=
    htraced.live
  have hnone : (Stage.of session.pc).live ≠ true →
      ∀ conn, ¬ Registered s.world .global session.id conn := by
    intro hdead
    cases hstage : Stage.of session.pc with
    | connecting => exact hinv.pending _ _ _ (htraced.pending hstage)
    | draining => exact htraced.gone (congrArg Stage.gone hstage)
    | ended => exact htraced.gone (congrArg Stage.gone hstage)
    | _ => exact absurd (congrArg Stage.live hstage) hdead
  refine ⟨⟨w, labels, htask, hpanics⟩, rfl, fun h => hcalm (congrArg Stage.of h), ⟨?_, ?_⟩, ?_⟩
  · rintro ⟨conn, hconn⟩
    by_contra hdead
    exact hnone hdead conn hconn
  · intro h
    obtain ⟨conn, hconn, -⟩ := hlive h
    exact ⟨conn, hconn⟩
  · intro conn hconn
    by_cases h : (Stage.of session.pc).live = true
    · obtain ⟨conn', hconn', houtbox⟩ := hlive h
      rw [Registered] at hconn hconn'
      rw [hconn] at hconn'
      cases hconn'
      exact houtbox
    · exact absurd hconn (hnone h conn)

/-- What a client writes, and what `serde_json` makes of a message. -/
def adaText : String :=
  "\x7b\"event\":\"message\",\"data\":\x7b\"author\":\"ada\",\"text\":\"hi\"\x7d\x7d"

def bannedText : String := "\x7b\"event\":\"message\",\"data\":[\"banned\",\"hi\"]\x7d"

def presenceText : String := "\x7b\"event\":\"presence\",\"data\":null\x7d"

def roomSerde : Serde where
  json := {
    fromStr text :=
      if text = adaText then
        .ok ⟨"message", .object [("author", .string "ada"), ("text", .string "hi")]⟩
      else if text = bannedText then .ok ⟨"message", .array [.string "banned", .string "hi"]⟩
      else if text = presenceText then .ok ⟨"presence", .null⟩
      else .error "expected value at line 1 column 1"
    toString envelope :=
      match envelope.data with
      | .object [("author", .string author), ("text", .string text)] =>
        some ("\x7b\"event\":\"" ++ envelope.event ++ "\",\"data\":\x7b\"author\":\"" ++ author ++
          "\",\"text\":\"" ++ text ++ "\"\x7d\x7d")
      | .number n => some ("\x7b\"event\":\"" ++ envelope.event ++ "\",\"data\":" ++ n ++ "\x7d")
      | _ => some ("\x7b\"event\":\"" ++ envelope.event ++ "\",\"data\":null\x7d")
    error message := .object [("error", .string message)] }
  invalid _ := "missing field author"

/-- A socket comes in. -/
def enters (i : Nat) : List Event :=
  [.upgrade, .task i .insert, .task i (.call .onConnect), .task i (.returns .onConnect)]

/-- A socket sends a message, which is recorded. -/
def posts (i : Nat) (text : String) : List Event :=
  [.task i (.read (.text text)), .task i .guard, .task i .dispatch, .record i]

/-- Two come in, and one sends a message. -/
def greeting : List Event := enters 0 ++ enters 1 ++ posts 1 adaText

theorem greeting_served : ∃ s session, App.init.run roomSerde greeting = some s ∧
    s.sessions[1]? = some session ∧
    ((∃ conn, Registered s.world .global 1 conn) ↔ (Stage.of session.pc).live = true) :=
  ⟨_, _, rfl, rfl, (session_refines (fun ns => by cases ns <;> decide)
    (show App.init.run roomSerde greeting = some _ from rfl) rfl).2.2.2.1⟩

end Served

/-! ## Who is in -/

/-- The socket is in: `on_connect` has returned, `on_disconnect` has not. -/
def Stage.isIn : Stage → Bool
  | .serving | .closing | .parting => true
  | _ => false

section Presence

variable {serde : Serde} {events : List Event} {s s' : App}

theorem isIn_step {stage stage' : Stage} {label : Label Namespace Value}
    (h : Stage.Step stage label stage') (hpanics : label ≠ .panics) :
    (label = .returns .onConnect ∧ Stage.isIn stage = false ∧ Stage.isIn stage' = true) ∨
    (label = .returns .onDisconnect ∧ Stage.isIn stage = true ∧ Stage.isIn stage' = false) ∨
    (∀ hook, label ≠ .returns hook) ∧ Stage.isIn stage' = Stage.isIn stage := by
  cases h with
  | greeted => exact .inl ⟨rfl, rfl, rfl⟩
  | parted => exact .inr (.inl ⟨rfl, rfl, rfl⟩)
  | serve _ hl | stop _ hl =>
    refine .inr (.inr ⟨?_, rfl⟩)
    rintro hook rfl
    cases hl
  | panic _ hs => exact absurd rfl hpanics
  | _ => exact .inr (.inr ⟨nofun, rfl⟩)

theorem presentAfter_of_ne {present : Nat} {move : Move} (h : ∀ hook, move ≠ .returns hook) :
    App.presentAfter present move = present := by
  cases move with
  | returns hook => exact absurd rfl (h hook)
  | _ => rfl

/-- The sockets that are in, when one is put back. -/
theorem countP_put {sessions : List Session} {i : Nat} {session : Session}
    (hsession : sessions[i]? = some session) (session' : Session) (p : Session → Bool) :
    (sessions.set i session').countP p + (p session).toNat =
      sessions.countP p + (p session').toNat := by
  obtain ⟨hi, rfl⟩ := List.getElem?_eq_some_iff.mp hsession
  have hone : ∀ b : Bool, (if b = true then 1 else 0) = b.toNat := by
    intro b
    cases b with
    | false => rfl
    | true => rfl
  have hcount : (if p sessions[i] then 1 else 0) ≤ sessions.countP p :=
    List.boole_getElem_le_countP hi
  rw [List.countP_set hi]
  rw [hone] at hcount
  rw [hone, hone]
  omega

/-- A socket is in, as its task says. -/
def Session.isIn (session : Session) : Bool := Stage.isIn (Stage.of session.pc)

/-- A socket that is put back where it was. -/
theorem present_put {i : Nat} {session session' : Session}
    (h : s.present = s.sessions.countP Session.isIn % 2 ^ 64)
    (hsession : s.sessions[i]? = some session) (hsessions : s'.sessions = s.sessions.set i session')
    (hpc : session'.pc = session.pc) (hpresent : s'.present = s.present) :
    s'.present = s'.sessions.countP Session.isIn % 2 ^ 64 := by
  have hcount := countP_put hsession session' Session.isIn
  have hsame : session'.isIn = session.isIn := congrArg (fun pc => Stage.isIn (Stage.of pc)) hpc
  rw [hsame] at hcount
  rw [hpresent, hsessions, Nat.add_right_cancel hcount]
  exact h

/-- A step of a task makes of the presence what it makes of the sockets that are in. -/
theorem present_task {i : Nat} {move : Move}
    (h : s.present = s.sessions.countP Session.isIn % 2 ^ 64)
    (hstep : s.step serde (.task i move) = some s') :
    s'.present = s'.sessions.countP Session.isIn % 2 ^ 64 := by
  obtain ⟨session, label, pc, hsession, hlabel, -, hstage, hpanics, -, rfl⟩ :=
    step_task_cases hstep
  obtain ⟨-, -, hreturns⟩ := label_cases hlabel
  have hcount := countP_put hsession
    { session with pc, progress := App.progressAfter session.progress move } Session.isIn
  simp only [Session.isIn] at hcount h ⊢
  rcases isIn_step hstage hpanics with ⟨hlabel, hout, hin⟩ | ⟨hlabel, hin, hout⟩ | ⟨hnot, hsame⟩
  · obtain rfl := (hreturns .onConnect).mp hlabel
    rw [hout, hin] at hcount
    simp only [App.presentAfter, h]
    simp only [Bool.toNat_false, Bool.toNat_true] at hcount
    omega
  · obtain rfl := (hreturns .onDisconnect).mp hlabel
    rw [hout, hin] at hcount
    simp only [App.presentAfter, h]
    simp only [Bool.toNat_false, Bool.toNat_true] at hcount
    omega
  · rw [hsame] at hcount
    rw [Nat.add_right_cancel hcount, ← h]
    exact presentAfter_of_ne fun hook hmove => hnot hook ((hreturns hook).mpr hmove)

theorem present_step (h : s.present = s.sessions.countP Session.isIn % 2 ^ 64) {e : Event}
    (hstep : s.step serde e = some s') :
    s'.present = s'.sessions.countP Session.isIn % 2 ^ 64 := by
  cases e with
  | upgrade =>
    cases hstep
    rw [List.countP_append]
    exact h
  | task i move => exact present_task h hstep
  | record i =>
    obtain ⟨session, envelope, message, hsession, -, -, -, rfl⟩ := step_record_cases hstep
    exact present_put h hsession rfl rfl rfl
  | announce i =>
    obtain ⟨session, stored, hsession, -, rfl⟩ := step_announce_cases hstep
    exact present_put h hsession rfl rfl rfl
  | typing i =>
    obtain ⟨session, envelope, message, hsession, -, -, -, rfl⟩ := step_typing_cases hstep
    exact present_put h hsession rfl rfl rfl
  | elsewhere a =>
    obtain ⟨-, -, rfl⟩ := step_elsewhere_cases hstep
    exact h

/-- What `presence` answers, from the count that the service holds. -/
theorem step_presence {i : Nat} {session : Session} {envelope : WsEnvelope Value}
    (hsession : s.sessions[i]? = some session) (hpc : session.pc = .dispatching envelope)
    (hevent : envelope.event = "presence") :
    ∃ s', s.step serde (.task i .reply) = some s' ∧ (s'.sessions[i]?).map Session.pc =
      some ((endpoint serde).rendered "presence" (.reply (.number (toString s.present)))) := by
  have hdispatch : dispatch serde envelope = .ok .presence := by simp [dispatch, hevent]
  have hlabel : s.label serde session .reply =
      some (.replies (.reply (.number (toString s.present)))) := by
    simp [App.label, hpc, App.reply, hdispatch]
  have hnext : (session.task s.world).step (endpoint serde)
      (.replies (.reply (.number (toString s.present)))) =
        some ⟨s.world, session.id, session.outbox,
          (endpoint serde).rendered "presence" (.reply (.number (toString s.present)))⟩ := by
    simp [Session.task, Task.step, GatewayEndpoint.next, hpc, hevent, endpoint, Task.effect]
  obtain ⟨hi, -⟩ := List.getElem?_eq_some_iff.mp hsession
  have hstep : s.step serde (.task i .reply) = some { s with
      sessions := s.sessions.set i { session with
        pc := (endpoint serde).rendered "presence" (.reply (.number (toString s.present))) } } := by
    simp only [App.step, hsession, hlabel, hnext, Option.bind_eq_bind, Option.bind_some]
    rfl
  exact ⟨_, hstep, by rw [List.getElem?_set_self hi, Option.map_some]⟩

/-- **The presence is exact.** Whatever the sockets do, in every order, the number that `presence`
answers is that of the sockets whose `on_connect` has returned and whose `on_disconnect` has not
(as a `usize`): none is counted twice, none is left behind, whichever way its loop ended. -/
theorem presence_exact (hrun : App.init.run serde events = some s) :
    s.present = s.sessions.countP Session.isIn % 2 ^ 64 ∧
      ∀ (i : Nat) (session : Session) (envelope : WsEnvelope Value),
        s.sessions[i]? = some session → session.pc = .dispatching envelope →
        envelope.event = "presence" →
        ∃ s', s.step serde (.task i .reply) = some s' ∧ (s'.sessions[i]?).map Session.pc =
          some ((endpoint serde).rendered "presence"
            (.reply (.number (toString (s.sessions.countP Session.isIn % 2 ^ 64))))) := by
  have hpresent : s.present = s.sessions.countP Session.isIn % 2 ^ 64 :=
    foldlM_invariant (P := fun s : App => s.present = s.sessions.countP Session.isIn % 2 ^ 64)
      (fun _ _ _ h hstep => present_step h hstep) events rfl hrun
  refine ⟨hpresent, fun i session envelope hsession hpc hevent => ?_⟩
  rw [← hpresent]
  exact step_presence hsession hpc hevent

/-- One of the two asks for the presence. -/
def asked : List Event := greeting ++ [.task 0 (.read (.text presenceText)), .task 0 .dispatch]

theorem greeting_present : ∃ s, App.init.run roomSerde asked = some s ∧ s.present = 2 ∧
    ∃ s', s.step roomSerde (.task 0 .reply) = some s' ∧ (s'.sessions[0]?).map Session.pc =
      some ((endpoint roomSerde).rendered "presence"
        (.reply (.number (toString (s.sessions.countP Session.isIn % 2 ^ 64))))) :=
  ⟨_, rfl, rfl, (presence_exact (show App.init.run roomSerde asked = some _ from rfl)).2 0 _ _
    rfl rfl rfl⟩

end Presence

end Nestrs.Chat
