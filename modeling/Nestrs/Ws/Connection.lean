import Nestrs.Ws.Registry

/-!
# The lifecycle of a WebSocket connection

Model of `serve_connection` and `handle_text` of `crates/nestrs-ws/src/gateway.rs` over the
registries of `Registry.lean`. The task of a connection is a state machine: `Pc` is where it is in
the source, a `Label` is what happens next. It registers itself, awaits `on_connect`, reads messages
until the loop ends, awaits `on_disconnect`, removes itself from the registry and awaits its writer.

User code is awaited in five places: the two hooks, the guards of a message, the bridge
(`SocketContext::around`) and `dispatch`. It may return anything, or panic; a panic unwinds the task
at that `await`, and the rest of the function does not run. While it is awaited, and while the task
waits for a message, everybody else acts on the registries: a label `other` is a step of another
connection, of a service, or of the user code itself (`join`, `broadcast`, ...). The writer dies by
such a step, which closes the outbox. `connect` and `disconnect` are private to the crate and ids
are not reused (`insert_own`), so nobody else inserts or removes this connection.

`serde_json` is a parameter, and what user code does is in the labels, so that a statement about
every run is one about every gateway.

Results:
* `progress`: a task that is not over is never stuck;
* `run_refines`: a run of a connection is a run of the registries;
* `insert_own`: an id that a connection was given is inserted by nobody else, ever;
* **`lifecycle_iff`**: the lifecycle is as documented exactly when no user code panics.
-/

namespace Nestrs.Ws

/-- `WsEnvelope`, over the type of JSON values. -/
structure WsEnvelope (V : Type) where
  event : String
  data : V

/-- `WsReply`. -/
inductive WsReply (V : Type) where
  | reply (data : V)
  | none
  | error (message : String)

/-- `serde_json`, as the gateway uses it: `from_str` with the text of its error, `to_string`, and
`json!` of an error. -/
structure Json (V : Type) where
  fromStr : String → Except String (WsEnvelope V)
  toString : WsEnvelope V → Option Frame
  error : String → V

/-- `GatewayEndpoint`: the registry of the gateway, the number of guards its `MessageGuardTable` has
for an event, and whether a `SocketContext` is bound. -/
structure GatewayEndpoint (N V : Type) where
  server : N
  guards : String → Nat
  ctx : Bool
  json : Json V

/-- What `stream.next()` gives. -/
inductive Incoming where
  | text (text : String)
  | close
  | other
  | error
  | ended

inductive Hook where
  | onConnect
  | onDisconnect
deriving DecidableEq

/-- Where the task is. -/
inductive Pc (V : Type) where
  /-- Between the two steps of `server.connect`. -/
  | connecting
  /-- Registered. -/
  | connected
  /-- Awaiting a hook. -/
  | awaiting (hook : Hook)
  /-- At `stream.next().await`. -/
  | reading
  /-- In `guards.check`, with this many guards left. -/
  | guarding (envelope : WsEnvelope V) (left : Nat)
  /-- Awaiting `ctx.around`, before or after it has run the dispatch. -/
  | around (envelope : WsEnvelope V) (dispatched : Bool)
  /-- Awaiting `gateway.dispatch`. -/
  | dispatching (envelope : WsEnvelope V)
  /-- About to send a reply. -/
  | replying (frame : Frame)
  /-- The loop has ended. -/
  | closing
  /-- `on_disconnect` has returned. -/
  | leaving
  /-- Awaiting the writer. -/
  | draining
  /-- `serve_connection` has returned. -/
  | ended
  /-- User code has panicked. -/
  | unwound

/-- What happens next. -/
inductive Label (N V : Type) where
  /-- Somebody else, or the user code being awaited, acts on the registries. -/
  | other (a : Action N)
  | insert
  | call (hook : Hook)
  | returns (hook : Hook)
  | read (message : Incoming)
  | guarded (result : Except String Unit)
  | around
  | dispatch
  | replies (reply : WsReply V)
  | send
  | disconnect
  | drained
  | panics

/-- The task of a connection in the world: its id, its outbox and where it is. -/
structure Task (N V : Type) where
  world : World N
  id : ConnId
  outbox : Nat
  pc : Pc V

variable {N V : Type}

namespace GatewayEndpoint

variable (e : GatewayEndpoint N V)

/-- `error_frame`. -/
def errorFrame (event message : String) : Frame :=
  (e.json.toString ⟨event, e.json.error message⟩).getD
    "\x7b\"event\":\"error\",\"data\":\x7b\"error\":\"internal\"\x7d\x7d"

/-- The end of `handle_text` and what the loop does with it. -/
def rendered (event : String) : WsReply V → Pc V
  | .reply data =>
    match e.json.toString ⟨event, data⟩ with
    | some frame => .replying frame
    | none => .reading
  | .none => .reading
  | .error message => .replying (e.errorFrame event message)

/-- The loop on a message; a text starts `handle_text`. -/
def received : Incoming → Pc V
  | .text text =>
    match e.json.fromStr text with
    | .ok envelope => .guarding envelope (e.guards envelope.event)
    | .error err => .replying (e.errorFrame "error" ("invalid envelope: " ++ err))
  | .other => .reading
  | .close | .error | .ended => .closing

/-- The control flow of `serve_connection`; `isOpen` is whether the outbox is. -/
def next (isOpen : Bool) : Pc V → Label N V → Option (Pc V)
  | .connecting, .insert => some .connected
  | .connected, .call .onConnect => some (.awaiting .onConnect)
  | .awaiting .onConnect, .returns .onConnect => some .reading
  | .reading, .read message => some (e.received message)
  | .guarding envelope (left + 1), .guarded (.ok ()) => some (.guarding envelope left)
  | .guarding envelope (_ + 1), .guarded (.error reason) =>
    some (.replying (e.errorFrame envelope.event reason))
  | .guarding envelope 0, .around => if e.ctx then some (.around envelope false) else none
  | .guarding envelope 0, .dispatch => if e.ctx then none else some (.dispatching envelope)
  | .around envelope false, .dispatch => some (.dispatching envelope)
  | .around envelope _, .replies reply => some (e.rendered envelope.event reply)
  | .dispatching envelope, .replies reply =>
    if e.ctx then some (.around envelope true) else some (e.rendered envelope.event reply)
  | .replying _, .send => if isOpen then some .reading else some .closing
  | .closing, .call .onDisconnect => some (.awaiting .onDisconnect)
  | .awaiting .onDisconnect, .returns .onDisconnect => some .leaving
  | .leaving, .disconnect => some .draining
  | .draining, .drained => some .ended
  -- a panic of the user code that is awaited
  | .awaiting _, .panics | .guarding _ (_ + 1), .panics | .around _ _, .panics
  | .dispatching _, .panics => some .unwound
  | _, _ => none

end GatewayEndpoint

/-! ## The lifecycle in the abstract

What the hooks and the registry see of a connection: the loop is one stage, in which user code is
awaited, messages are read and replies are sent in any order. -/

/-- The stages of a connection. -/
inductive Stage where
  | connecting
  | connected
  | greeting
  | serving
  | closing
  | parting
  | leaving
  | draining
  | ended
  | unwound
deriving DecidableEq

namespace Stage

/-- The stage of a place in the source. -/
def of : Pc V → Stage
  | .connecting => connecting
  | .connected => connected
  | .awaiting .onConnect => greeting
  | .reading | .guarding _ _ | .around _ _ | .dispatching _ | .replying _ => serving
  | .closing => closing
  | .awaiting .onDisconnect => parting
  | .leaving => leaving
  | .draining => draining
  | .ended => ended
  | .unwound => unwound

/-- The registry has the connection. -/
def live : Stage → Bool
  | connecting | draining | ended => false
  | _ => true

/-- The connection has been removed. -/
def gone : Stage → Bool
  | draining | ended => true
  | _ => false

/-- `on_connect` has returned. -/
def greeted : Stage → Bool
  | connecting | connected | greeting | unwound => false
  | _ => true

/-- How often the hook has been called. -/
def called : Hook → Stage → Nat
  | .onConnect, connecting | .onConnect, connected => 0
  | .onConnect, _ => 1
  | .onDisconnect, parting | .onDisconnect, leaving | .onDisconnect, draining
  | .onDisconnect, ended => 1
  | .onDisconnect, _ => 0

end Stage

namespace Label

/-- The label is one of the loop. -/
def serves : Label N V → Bool
  | read _ | guarded _ | around | dispatch | replies _ | send => true
  | _ => false

/-- The label calls the hook. -/
def calls (hook : Hook) : Label N V → Bool
  | call hook' => hook' = hook
  | _ => false

end Label

/-- The lifecycle: a panic is possible where user code is awaited. -/
inductive Stage.Step : Stage → Label N V → Stage → Prop where
  | insert : Step connecting .insert connected
  | greet : Step connected (.call .onConnect) greeting
  | greeted : Step greeting (.returns .onConnect) serving
  | serve (l : Label N V) (hl : l.serves = true) : Step serving l serving
  | stop (l : Label N V) (hl : l.serves = true) : Step serving l closing
  | part : Step closing (.call .onDisconnect) parting
  | parted : Step parting (.returns .onDisconnect) leaving
  | leave : Step leaving .disconnect draining
  | drain : Step draining .drained ended
  | panic (s : Stage) (hs : s = greeting ∨ s = serving ∨ s = parting) : Step s .panics unwound

namespace Stage.Step

variable {s s' : Stage} {l : Label N V}

theorem live_of (h : Stage.Step s l s') (hlive : s'.live = true) :
    l = .insert ∨ s.live = true ∧ l ≠ .insert ∧ l ≠ .disconnect := by
  cases h with
  | insert => exact Or.inl rfl
  | serve l hl | stop l hl =>
    refine Or.inr ⟨rfl, ?_, ?_⟩
    · rintro rfl
      cases hl
    · rintro rfl
      cases hl
  | panic s hs => exact Or.inr ⟨by rcases hs with rfl | rfl | rfl <;> rfl, nofun, nofun⟩
  | leave => cases hlive
  | drain => cases hlive
  | _ => exact Or.inr ⟨rfl, nofun, nofun⟩

theorem gone_of (h : Stage.Step s l s') (hgone : s'.gone = true) :
    l = .disconnect ∨ s.gone = true ∧ l ≠ .insert ∧ l ≠ .disconnect := by
  cases h with
  | leave => exact Or.inl rfl
  | drain => exact Or.inr ⟨rfl, nofun, nofun⟩
  | _ => cases hgone

theorem unwound_iff (h : Stage.Step s l s') : s' = .unwound ↔ l = .panics := by
  cases h with
  | panic s hs => exact ⟨fun _ => rfl, fun _ => rfl⟩
  | serve l hl | stop l hl => exact ⟨nofun, by rintro rfl; cases hl⟩
  | _ => exact ⟨nofun, nofun⟩

theorem ne_unwound (h : Stage.Step s l s') : s ≠ .unwound := by
  cases h with
  | panic s hs => rcases hs with rfl | rfl | rfl <;> nofun
  | _ => nofun

theorem called_eq (h : Stage.Step s l s') (hs' : s' ≠ .unwound) (hook : Hook) :
    s'.called hook = s.called hook + if l.calls hook then 1 else 0 := by
  cases h with
  | panic s hs => exact absurd rfl hs'
  | serve l hl | stop l hl =>
    cases l with
    | call hook => cases hl
    | _ => cases hook <;> rfl
  | _ => cases hook <;> rfl

theorem greeted_of (h : Stage.Step s l s') (hgreeted : s'.greeted = true) :
    l = .returns .onConnect ∨ s.greeted = true := by
  cases h with
  | greeted => exact Or.inl rfl
  | insert => cases hgreeted
  | greet => cases hgreeted
  | panic s hs => cases hgreeted
  | _ => exact Or.inr rfl

theorem ne_connecting (h : Stage.Step s l s') : s' ≠ .connecting := by
  cases h with
  | _ => nofun

theorem ne_other (h : Stage.Step s l s') (a : Action N) : l ≠ .other a := by
  cases h with
  | serve l hl | stop l hl =>
    rintro rfl
    cases hl
  | _ => nofun

end Stage.Step

section Control

variable {e : GatewayEndpoint N V} {pc pc' : Pc V} {l : Label N V}

theorem stage_rendered (event : String) (reply : WsReply V) :
    Stage.of (e.rendered event reply) = .serving := by
  unfold GatewayEndpoint.rendered
  cases reply with
  | reply data =>
    simp only
    split
    · rfl
    · rfl
  | none => rfl
  | error message => rfl

theorem stage_received (message : Incoming) :
    Stage.of (e.received message) = .serving ∨ Stage.of (e.received message) = .closing := by
  unfold GatewayEndpoint.received
  cases message with
  | text text =>
    simp only
    split
    · exact Or.inl rfl
    · exact Or.inl rfl
  | other => exact Or.inl rfl
  | close => exact Or.inr rfl
  | error => exact Or.inr rfl
  | ended => exact Or.inr rfl

/-- **The control flow of `serve_connection` follows the lifecycle.** -/
theorem stage_next {isOpen : Bool} (h : e.next isOpen pc l = some pc') :
    Stage.Step (Stage.of pc) l (Stage.of pc') := by
  unfold GatewayEndpoint.next at h
  split at h
  · cases h
    exact .insert
  · cases h
    exact .greet
  · cases h
    exact .greeted
  · rename_i message
    cases h
    rcases stage_received (e := e) message with hstage | hstage
    · rw [hstage]
      exact .serve _ rfl
    · rw [hstage]
      exact .stop _ rfl
  · cases h
    exact .serve _ rfl
  · cases h
    exact .serve _ rfl
  · split at h
    · cases h
      exact .serve _ rfl
    · cases h
  · split at h
    · cases h
    · cases h
      exact .serve _ rfl
  · cases h
    exact .serve _ rfl
  · cases h
    rw [stage_rendered]
    exact .serve _ rfl
  · split at h
    · cases h
      exact .serve _ rfl
    · cases h
      rw [stage_rendered]
      exact .serve _ rfl
  · split at h
    · cases h
      exact .serve _ rfl
    · cases h
      exact .stop _ rfl
  · cases h
    exact .part
  · cases h
    exact .parted
  · cases h
    exact .leave
  · cases h
    exact .drain
  · rename_i hook
    cases h
    cases hook with
    | onConnect => exact .panic _ (Or.inl rfl)
    | onDisconnect => exact .panic _ (Or.inr (Or.inr rfl))
  · cases h
    exact .panic _ (Or.inr (Or.inl rfl))
  · cases h
    exact .panic _ (Or.inr (Or.inl rfl))
  · cases h
    exact .panic _ (Or.inr (Or.inl rfl))
  · cases h

end Control

/-! ## The task in the world -/

/-- A step that is not the connection's own: it neither inserts, removes nor replies for it. -/
def Action.Foreign (ns : N) (id : ConnId) : Action N → Prop
  | .insert ns' id' _ | .disconnect ns' id' | .reply ns' id' _ => ¬ (ns' = ns ∧ id' = id)
  | _ => True

variable [DecidableEq N]

instance Action.instDecidableForeign (ns : N) (id : ConnId) :
    (a : Action N) → Decidable (a.Foreign ns id)
  | .insert ns' id' _ | .disconnect ns' id' | .reply ns' id' _ =>
    inferInstanceAs (Decidable (¬ (ns' = ns ∧ id' = id)))
  | .allocate _ | .join _ _ _ | .leave _ _ _ | .broadcast _ _ | .emitTo _ _ _ | .emit _ _ _
  | .close _ => isTrue trivial

namespace Task

variable (e : GatewayEndpoint N V)

/-- What the task does to the world itself. -/
def effect (t : Task N V) : Label N V → World N
  | .insert => (t.world.step (.insert e.server t.id t.outbox)).2
  | .send =>
    match t.pc with
    | .replying frame => { t.world with outboxes := (Ws.send t.world.outboxes t.outbox frame).2 }
    | _ => t.world
  | .disconnect => (t.world.step (.disconnect e.server t.id)).2
  | .drained => (t.world.step (.close t.outbox)).2
  | _ => t.world

/-- One step. -/
def step (t : Task N V) : Label N V → Option (Task N V)
  | .other a =>
    if t.world.Enabled a ∧ a.Foreign e.server t.id then
      some { t with world := (t.world.step a).2 }
    else none
  | l =>
    (e.next (t.world.outboxes t.outbox).isOpen t.pc l).map fun pc =>
      { t with world := t.effect e l, pc }

/-- The first step of `server.connect`, with the channel just made. -/
def start (w : World N) : Task N V where
  world := (w.step (.allocate e.server)).2
  id := (w.servers e.server).next
  outbox := w.created
  pc := .connecting

/-- **`serve_connection`**, along what happens. -/
def run (w : World N) (labels : List (Label N V)) : Option (Task N V) :=
  labels.foldlM (step e) (start e w)

/-- The task has returned or unwound. -/
def finished (t : Task N V) : Prop := t.pc = .ended ∨ t.pc = .unwound

end Task

section Step

variable {e : GatewayEndpoint N V} {t t' : Task N V} {l : Label N V}

/-- What a step of the task can be: somebody else's, or one of the lifecycle with its effect. -/
theorem task_step_cases (h : t.step e l = some t') :
    (∃ a, l = .other a ∧ t.world.Enabled a ∧ a.Foreign e.server t.id ∧
      t' = { t with world := (t.world.step a).2 }) ∨
    Stage.Step (Stage.of t.pc) l (Stage.of t'.pc) ∧
      t' = { t with world := t.effect e l, pc := t'.pc } := by
  have hown : (e.next (t.world.outboxes t.outbox).isOpen t.pc l).map
      (fun pc => { t with world := t.effect e l, pc }) = some t' →
      Stage.Step (Stage.of t.pc) l (Stage.of t'.pc) ∧
        t' = { t with world := t.effect e l, pc := t'.pc } := by
    intro h
    obtain ⟨pc, hnext, rfl⟩ := Option.map_eq_some_iff.mp h
    exact ⟨stage_next hnext, rfl⟩
  cases l with
  | other a =>
    unfold Task.step at h
    simp only at h
    split at h
    · rename_i hother
      cases h
      exact Or.inl ⟨a, rfl, hother.1, hother.2, rfl⟩
    · cases h
  | _ => exact Or.inr (hown h)

theorem servers_effect (hinsert : l ≠ .insert) (hdisconnect : l ≠ .disconnect) :
    (t.effect e l).servers = t.world.servers := by
  cases l with
  | insert => exact absurd rfl hinsert
  | disconnect => exact absurd rfl hdisconnect
  | send =>
    unfold Task.effect
    simp only
    split
    · rfl
    · rfl
  | _ => rfl

/-- The steps of others leave a registered connection registered, with its outbox. -/
theorem registered_foreign {w : World N} {a : Action N} {ns : N} {id : ConnId} {conn : Conn}
    (ha : a.Foreign ns id) (h : Registered w ns id conn) :
    ∃ conn', Registered (w.step a).2 ns id conn' ∧ conn'.outbox = conn.outbox := by
  refine registered_of_step h ?_ ?_
  · rintro rfl
    exact ha ⟨rfl, rfl⟩
  · rintro o rfl
    exact ha ⟨rfl, rfl⟩

/-- The steps of others do not register a connection. -/
theorem not_registered_foreign {w : World N} {a : Action N} {ns : N} {id : ConnId}
    (ha : a.Foreign ns id) (h : ∀ conn, ¬ Registered w ns id conn) (conn : Conn) :
    ¬ Registered (w.step a).2 ns id conn := by
  intro hreg
  rcases registered_step hreg with ⟨rfl, -⟩ | ⟨-, old, hold, -⟩
  · exact ha ⟨rfl, rfl⟩
  · exact h old hold

end Step

/-! ## Along a run -/

/-- What has happened, by the stage the task is in. -/
structure Traced (e : GatewayEndpoint N V) (labels : List (Label N V)) (t : Task N V) : Prop where
  pending : Stage.of t.pc = .connecting → (e.server, t.id, t.outbox) ∈ t.world.connecting
  live : (Stage.of t.pc).live = true →
    ∃ conn, Registered t.world e.server t.id conn ∧ conn.outbox = t.outbox
  gone : (Stage.of t.pc).gone = true → ∀ conn, ¬ Registered t.world e.server t.id conn
  unwound : Stage.of t.pc = .unwound ↔ .panics ∈ labels
  called : Stage.of t.pc ≠ .unwound →
    ∀ hook, labels.countP (Label.calls hook) = (Stage.of t.pc).called hook
  greeted : (Stage.of t.pc).greeted = true → .returns .onConnect ∈ labels

section Run

variable {e : GatewayEndpoint N V} {w : World N} {t t' : Task N V} {l : Label N V}
  {labels pre post : List (Label N V)}

theorem traced_start : Traced e [] (Task.start e w : Task N V) where
  pending _ := List.mem_cons_self
  live h := by cases h
  gone h := by cases h
  unwound := ⟨nofun, nofun⟩
  called _ hook := by
    cases hook with
    | onConnect => rfl
    | onDisconnect => rfl
  greeted h := by cases h

theorem traced_other {a : Action N} (h : Traced e labels t) (ha : a.Foreign e.server t.id) :
    Traced e (labels ++ [.other a]) { t with world := (t.world.step a).2 } where
  pending hstage := by
    refine connecting_of_step (h.pending hstage) fun heq => ?_
    rw [heq] at ha
    exact ha ⟨rfl, rfl⟩
  live hstage := by
    obtain ⟨conn, hreg, houtbox⟩ := h.live hstage
    obtain ⟨conn', hreg', houtbox'⟩ := registered_foreign ha hreg
    exact ⟨conn', hreg', houtbox'.trans houtbox⟩
  gone hstage := not_registered_foreign ha (h.gone hstage)
  unwound := by
    rw [h.unwound]
    simp
  called hstage hook := by
    rw [List.countP_append, h.called hstage hook]
    rfl
  greeted hstage := List.mem_append_left _ (h.greeted hstage)

theorem traced_own (h : Traced e labels t) (hstep : Stage.Step (Stage.of t.pc) l (Stage.of t'.pc))
    (ht' : t' = { t with world := t.effect e l, pc := t'.pc }) :
    Traced e (labels ++ [l]) t' := by
  have hworld : t'.world = t.effect e l := by rw [ht']
  have hid : t'.id = t.id := by rw [ht']
  have houtbox : t'.outbox = t.outbox := by rw [ht']
  refine ⟨fun hstage => absurd hstage hstep.ne_connecting, fun hlive => ?_, fun hgone => ?_, ?_,
    fun hstage hook => ?_, fun hgreeted => ?_⟩
  · rw [hworld, hid, houtbox]
    rcases hstep.live_of hlive with rfl | ⟨hlive, hinsert, hdisconnect⟩
    · exact ⟨_, registered_insert t.world e.server t.id t.outbox, rfl⟩
    · unfold Registered
      rw [servers_effect hinsert hdisconnect]
      exact h.live hlive
  · rw [hworld, hid]
    rcases hstep.gone_of hgone with rfl | ⟨hgone, hinsert, hdisconnect⟩
    · exact not_registered_disconnect t.world e.server t.id
    · unfold Registered
      rw [servers_effect hinsert hdisconnect]
      exact h.gone hgone
  · have hbefore : .panics ∉ labels := fun hpanics => hstep.ne_unwound (h.unwound.mpr hpanics)
    rw [hstep.unwound_iff]
    simp [hbefore, eq_comm]
  · rw [List.countP_append, List.countP_singleton, h.called hstep.ne_unwound hook,
      hstep.called_eq hstage hook]
  · rcases hstep.greeted_of hgreeted with rfl | hgreeted
    · simp
    · exact List.mem_append_left _ (h.greeted hgreeted)

theorem run_snoc (pre : List (Label N V)) (l : Label N V) :
    Task.run e w (pre ++ [l]) = some t' ↔
      ∃ t, Task.run e w pre = some t ∧ t.step e l = some t' := by
  unfold Task.run
  simp [List.foldlM_append, Option.bind_eq_some_iff]

/-- A part of a run is a run. -/
theorem run_append (h : Task.run e w (pre ++ post) = some t) :
    ∃ t₀, Task.run e w pre = some t₀ := by
  unfold Task.run at h
  rw [List.foldlM_append] at h
  obtain ⟨t₀, ht₀, -⟩ := Option.bind_eq_some_iff.mp h
  exact ⟨t₀, ht₀⟩

/-- The step taken after a part of a run. -/
theorem run_split (h : Task.run e w (pre ++ l :: post) = some t) :
    ∃ t₀ t₁, Task.run e w pre = some t₀ ∧ t₀.step e l = some t₁ := by
  rw [List.append_cons] at h
  obtain ⟨t₁, h₁⟩ := run_append h
  obtain ⟨t₀, h₀, hstep⟩ := (run_snoc pre l).mp h₁
  exact ⟨t₀, t₁, h₀, hstep⟩

theorem traced_run (h : Task.run e w labels = some t) : Traced e labels t := by
  induction labels using List.reverseRecOn generalizing t with
  | nil =>
    cases h
    exact traced_start
  | append_singleton pre l ih =>
    obtain ⟨t₀, h₀, hstep⟩ := (run_snoc pre l).mp h
    rcases task_step_cases hstep with ⟨a, rfl, -, ha, rfl⟩ | ⟨hstage, ht⟩
    · exact traced_other (ih h₀) ha
    · exact traced_own (ih h₀) hstage ht

/-- The step of the registries that the task takes itself. -/
def Task.action (e : GatewayEndpoint N V) (t : Task N V) : Label N V → Option (Action N)
  | .insert => some (.insert e.server t.id t.outbox)
  | .send =>
    match t.pc with
    | .replying frame => some (.reply e.server t.id frame)
    | _ => none
  | .disconnect => some (.disconnect e.server t.id)
  | .drained => some (.close t.outbox)
  | _ => none

/-- What the task does to the world is a step of the registries, and enabled. -/
theorem effect_eq_step (h : Traced e labels t)
    (hstep : Stage.Step (Stage.of t.pc) l (Stage.of t'.pc)) :
    match t.action e l with
    | some a => t.world.Enabled a ∧ t.effect e l = (t.world.step a).2
    | none => t.effect e l = t.world := by
  generalize hstage : Stage.of t.pc = s at hstep
  generalize Stage.of t'.pc = s' at hstep
  cases l with
  | insert =>
    cases hstep with
    | insert => exact ⟨h.pending hstage, rfl⟩
    | serve _ hl => cases hl
    | stop _ hl => cases hl
  | disconnect =>
    cases hstep with
    | leave =>
      obtain ⟨conn, hreg, -⟩ := h.live (by rw [hstage]; rfl)
      unfold Registered at hreg
      exact ⟨by simp [World.Enabled, hreg], rfl⟩
    | serve _ hl => cases hl
    | stop _ hl => cases hl
  | send =>
    have hlive : (Stage.of t.pc).live = true := by
      rw [hstage]
      cases hstep with
      | serve _ hl => rfl
      | stop _ hl => rfl
    obtain ⟨conn, hreg, houtbox⟩ := h.live hlive
    unfold Registered at hreg
    unfold Task.action Task.effect
    cases t.pc with
    | replying frame =>
      refine ⟨by simp [World.Enabled, hreg], ?_⟩
      simp [World.step, hreg, houtbox]
    | _ => rfl
  | drained => exact ⟨trivial, rfl⟩
  | _ => rfl

/-- The label allocates an id of the namespace. -/
def Label.allocates (ns : N) : Label N V → Bool
  | other a => a.allocates ns
  | _ => false

theorem allocates_action {a : Action N} (h : t.action e l = some a) (ns : N) :
    a.allocates ns = false := by
  unfold Task.action at h
  split at h
  · cases h
    rfl
  · split at h
    · cases h
      rfl
    · cases h
  · cases h
    rfl
  · cases h
    rfl
  · cases h

/-- **A run of a connection is a run of the registries**: with the steps of others it is an
interleaving in which every step is enabled. -/
theorem run_refines {actions : List (Action N)} (hvalid : Valid actions)
    (hrun : Task.run e (after actions) labels = some t) :
    ∃ more, Valid (actions ++ .allocate e.server :: more) ∧
      t.world = after (actions ++ .allocate e.server :: more) ∧
      ∀ ns, allocations ns more = labels.countP (Label.allocates ns) := by
  induction labels using List.reverseRecOn generalizing t with
  | nil =>
    cases hrun
    exact ⟨[], hvalid.snoc trivial, (after_snoc actions (.allocate e.server)).symm, fun ns => rfl⟩
  | append_singleton pre l ih =>
    obtain ⟨t₀, h₀, hstep⟩ := (run_snoc pre l).mp hrun
    obtain ⟨more, hmore, hworld, hcount⟩ := ih h₀
    have hsnoc : ∀ a, t₀.world.Enabled a → t.world = (t₀.world.step a).2 →
        (∀ ns, a.allocates ns = l.allocates ns) →
        ∃ more, Valid (actions ++ .allocate e.server :: more) ∧
          t.world = after (actions ++ .allocate e.server :: more) ∧
          ∀ ns, allocations ns more = (pre ++ [l]).countP (Label.allocates ns) := by
      intro a henabled heq hallocates
      rw [hworld] at henabled heq
      refine ⟨more ++ [a], ?_, ?_, fun ns => ?_⟩
      · simpa using hmore.snoc henabled
      · rw [heq, ← after_snoc]
        simp
      · rw [allocations_snoc, hcount, List.countP_append, List.countP_singleton, hallocates]
    rcases task_step_cases hstep with ⟨a, rfl, henabled, -, rfl⟩ | ⟨hstage, ht⟩
    · exact hsnoc a henabled rfl fun ns => rfl
    · have heffect := effect_eq_step (traced_run h₀) hstage
      have heq : t.world = t₀.effect e l := by rw [ht]
      have hown : ∀ ns, l.allocates ns = false := by
        intro ns
        cases l with
        | other a => exact absurd rfl (hstage.ne_other a)
        | _ => rfl
      cases haction : t₀.action e l with
      | none =>
        rw [haction] at heffect
        refine ⟨more, hmore, by rw [heq, heffect, hworld], fun ns => ?_⟩
        rw [hcount, List.countP_append, List.countP_singleton, hown]
        rfl
      | some a =>
        rw [haction] at heffect
        exact hsnoc a heffect.1 (heq.trans heffect.2) fun ns =>
          (allocates_action haction ns).trans (hown ns).symm

/-- The id has been given out, and nobody holds it. -/
def Released (w : World N) (ns : N) (id : ConnId) : Prop :=
  id < (w.servers ns).next ∧ ∀ o, ¬ Holds w ns id o

/-- A released id stays released while the counter does not wrap. -/
theorem released_step {w : World N} {a : Action N} {ns : N} {id : ConnId} (h : Released w ns id)
    (henabled : w.Enabled a)
    (hroom : a.allocates ns = true → (w.servers ns).next + 1 < 2 ^ 64) :
    Released (w.step a).2 ns id := by
  obtain ⟨hbelow, hunheld⟩ := h
  refine ⟨?_, fun o hholds => ?_⟩
  · rw [next_step]
    split
    · rename_i halloc
      rw [Nat.mod_eq_of_lt (hroom halloc)]
      exact Nat.lt_succ_of_lt hbelow
    · exact hbelow
  · rcases holds_step henabled hholds with hold | ⟨-, hid, -⟩
    · exact hunheld o hold
    · rw [hid] at hbelow
      exact absurd hbelow (lt_irrefl _)

section Unwrapped

variable {actions : List (Action N)}

/-- The registries along a run with fewer than `2 ^ 64` connects. -/
theorem inv_run (hvalid : Valid actions) (hrun : Task.run e (after actions) labels = some t)
    (hcount : ∀ ns, allocations ns actions + labels.countP (Label.allocates ns) + 1 < 2 ^ 64) :
    Inv t.world ∧ ∀ ns, (t.world.servers ns).next ≤
      allocations ns actions + labels.countP (Label.allocates ns) + 1 := by
  obtain ⟨more, hmore, hworld, hallocated⟩ := run_refines hvalid hrun
  have htotal : ∀ ns, allocations ns (actions ++ .allocate e.server :: more) ≤
      allocations ns actions + labels.countP (Label.allocates ns) + 1 := by
    intro ns
    rw [allocations_append, ← List.singleton_append, allocations_append, hallocated]
    have hone : allocations ns [Action.allocate e.server] ≤ 1 := List.countP_le_length
    omega
  have hbound : ∀ ns, allocations ns (actions ++ .allocate e.server :: more) < 2 ^ 64 :=
    fun ns => lt_of_le_of_lt (htotal ns) (hcount ns)
  rw [hworld]
  refine ⟨inv_after hmore hbound, fun ns => ?_⟩
  rw [next_after (hbound ns)]
  exact htotal ns

/-- Once a connection is removed, nobody holds its id. -/
theorem released_of_gone (hvalid : Valid actions)
    (hrun : Task.run e (after actions) labels = some t)
    (hcount : ∀ ns, allocations ns actions + labels.countP (Label.allocates ns) + 1 < 2 ^ 64)
    (hgone : (Stage.of t.pc).gone = true) : Released t.world e.server t.id := by
  induction labels using List.reverseRecOn generalizing t with
  | nil =>
    cases hrun
    cases hgone
  | append_singleton pre l ih =>
    obtain ⟨t₀, h₀, hstep⟩ := (run_snoc pre l).mp hrun
    have hpre : ∀ ns, allocations ns actions + pre.countP (Label.allocates ns) + 1 < 2 ^ 64 := by
      intro ns
      have h := hcount ns
      rw [List.countP_append] at h
      omega
    obtain ⟨hinv, hnext⟩ := inv_run hvalid h₀ hpre
    rcases task_step_cases hstep with ⟨a, rfl, henabled, -, rfl⟩ | ⟨hstage, ht⟩
    · refine released_step (ih h₀ hpre hgone) henabled fun halloc => ?_
      have h := hcount e.server
      rw [List.countP_append, List.countP_singleton] at h
      have hone : (Label.other a : Label N V).allocates e.server = true := halloc
      rw [if_pos hone] at h
      have hle := hnext e.server
      omega
    · have hworld : t.world = t₀.effect e l := by rw [ht]
      have hid : t.id = t₀.id := by rw [ht]
      rw [hworld, hid]
      have htraced := traced_run h₀
      rcases hstage.gone_of hgone with rfl | ⟨hbefore, -⟩
      · have hlive : (Stage.of t₀.pc).live = true := by
          generalize Stage.of t₀.pc = s at hstage ⊢
          generalize Stage.of t.pc = s' at hstage
          cases hstage with
          | serve _ hl => cases hl
          | stop _ hl => cases hl
          | leave => rfl
        obtain ⟨conn, hreg, -⟩ := htraced.live hlive
        have henabled : t₀.world.Enabled (.disconnect e.server t₀.id) := by
          unfold Registered at hreg
          simp [World.Enabled, hreg]
        refine ⟨?_, fun o hholds => ?_⟩
        · show t₀.id < ((t₀.world.step (.disconnect e.server t₀.id)).2.servers e.server).next
          rw [next_step]
          exact (hinv.below e.server t₀.id conn.outbox (Or.inr ⟨conn, hreg, rfl⟩)).1
        · rcases hholds with hconnecting | ⟨conn', hreg', -⟩
          · rcases connecting_step hconnecting with ⟨hold, -⟩ | ⟨ns, heq, -⟩
            · exact hinv.pending e.server t₀.id o hold conn hreg
            · cases heq
          · exact not_registered_disconnect t₀.world e.server t₀.id conn' hreg'
      · have hreleased := ih h₀ hpre hbefore
        have heffect := effect_eq_step htraced hstage
        cases haction : t₀.action e l with
        | none =>
          rw [haction] at heffect
          rw [heffect]
          exact hreleased
        | some a =>
          rw [haction] at heffect
          rw [heffect.2]
          refine released_step hreleased heffect.1 fun halloc => ?_
          rw [allocates_action haction] at halloc
          cases halloc

theorem stage_cases (s : Stage) : s = .connecting ∨ s.live = true ∨ s.gone = true := by
  cases s with
  | connecting => exact Or.inl rfl
  | draining => exact Or.inr (Or.inr rfl)
  | ended => exact Or.inr (Or.inr rfl)
  | _ => exact Or.inr (Or.inl rfl)

/-- **Nobody else inserts the id of a connection**, before, while or after it is served: an
insertion of it that is enabled is the connection's own. So `Foreign` asks nothing of the inserting
steps of others. -/
theorem insert_own (hvalid : Valid actions) (hrun : Task.run e (after actions) labels = some t)
    (hcount : ∀ ns, allocations ns actions + labels.countP (Label.allocates ns) + 1 < 2 ^ 64)
    {o : Nat} (h : t.world.Enabled (.insert e.server t.id o)) :
    Stage.of t.pc = .connecting ∧ o = t.outbox := by
  obtain ⟨hinv, -⟩ := inv_run hvalid hrun hcount
  have htraced := traced_run hrun
  rcases stage_cases (Stage.of t.pc) with hstage | hlive | hgone
  · exact ⟨hstage, hinv.id_unique e.server t.id o t.outbox (Or.inl h)
      (Or.inl (htraced.pending hstage))⟩
  · obtain ⟨conn, hreg, -⟩ := htraced.live hlive
    exact absurd hreg (hinv.pending e.server t.id o h conn)
  · exact absurd (Or.inl h) ((released_of_gone hvalid hrun hcount hgone).2 o)

end Unwrapped

/-- **A task that is not over is never stuck**: whatever it waits for, it can go on by itself. -/
theorem progress (t : Task N V) (hfinished : ¬ t.finished) :
    ∃ l t', t.step e l = some t' ∧ l ≠ .panics ∧ ∀ a, l ≠ .other a := by
  have hstep : ∀ l pc, e.next (t.world.outboxes t.outbox).isOpen t.pc l = some pc →
      (∀ a, l ≠ .other a) → ∃ t', t.step e l = some t' := by
    intro l pc hnext hown
    cases l with
    | other a => exact absurd rfl (hown a)
    | _ =>
      unfold Task.step
      simp [hnext]
  have hgoes : ∀ l pc, e.next (t.world.outboxes t.outbox).isOpen t.pc l = some pc →
      l ≠ .panics → (∀ a, l ≠ .other a) →
      ∃ l t', t.step e l = some t' ∧ l ≠ .panics ∧ ∀ a, l ≠ .other a := by
    intro l pc hnext hpanics hown
    obtain ⟨t', ht'⟩ := hstep l pc hnext hown
    exact ⟨l, t', ht', hpanics, hown⟩
  cases hpc : t.pc with
  | connecting => exact hgoes .insert _ (by rw [hpc]; rfl) nofun nofun
  | connected => exact hgoes (.call .onConnect) _ (by rw [hpc]; rfl) nofun nofun
  | awaiting hook =>
    cases hook with
    | onConnect => exact hgoes (.returns .onConnect) _ (by rw [hpc]; rfl) nofun nofun
    | onDisconnect => exact hgoes (.returns .onDisconnect) _ (by rw [hpc]; rfl) nofun nofun
  | reading => exact hgoes (.read .ended) _ (by rw [hpc]; rfl) nofun nofun
  | guarding envelope left =>
    cases left with
    | zero =>
      cases hctx : e.ctx with
      | true =>
        exact hgoes .around (.around envelope false)
          (by rw [hpc]; simp [GatewayEndpoint.next, hctx]) nofun nofun
      | false =>
        exact hgoes .dispatch (.dispatching envelope)
          (by rw [hpc]; simp [GatewayEndpoint.next, hctx]) nofun nofun
    | succ left => exact hgoes (.guarded (.ok ())) _ (by rw [hpc]; rfl) nofun nofun
  | around envelope dispatched =>
    exact hgoes (.replies .none) .reading
      (by rw [hpc]; cases dispatched <;> rfl) nofun nofun
  | dispatching envelope =>
    cases hctx : e.ctx with
    | true =>
      exact hgoes (.replies .none) (.around envelope true)
        (by rw [hpc]; simp [GatewayEndpoint.next, hctx]) nofun nofun
    | false =>
      exact hgoes (.replies .none) .reading
        (by rw [hpc]; simp [GatewayEndpoint.next, GatewayEndpoint.rendered, hctx]) nofun nofun
  | replying frame =>
    cases hopen : (t.world.outboxes t.outbox).isOpen with
    | true => exact hgoes .send .reading (by rw [hpc, hopen]; rfl) nofun nofun
    | false => exact hgoes .send .closing (by rw [hpc, hopen]; rfl) nofun nofun
  | closing => exact hgoes (.call .onDisconnect) _ (by rw [hpc]; rfl) nofun nofun
  | leaving => exact hgoes .disconnect _ (by rw [hpc]; rfl) nofun nofun
  | draining => exact hgoes .drained _ (by rw [hpc]; rfl) nofun nofun
  | ended => exact absurd (Or.inl hpc) hfinished
  | unwound => exact absurd (Or.inr hpc) hfinished

end Run

/-! ## The lifecycle -/

/-- **The lifecycle of a connection**, as documented. -/
structure Lifecycle (e : GatewayEndpoint N V) (w : World N) (labels : List (Label N V)) : Prop where
  /-- The connection is reclaimed. -/
  reclaimed : ∀ t, Task.run e w labels = some t → ∀ conn, ¬ Registered t.world e.server t.id conn
  /-- `on_connect` runs once, before the first dispatch. -/
  connect_once : labels.countP (Label.calls .onConnect) = 1
  connect_first : ∀ pre post, labels = pre ++ .dispatch :: post → .returns .onConnect ∈ pre
  /-- `on_disconnect` is started once, while the connection is registered. -/
  disconnect_once : labels.countP (Label.calls .onDisconnect) = 1
  disconnect_registered : ∀ pre post, labels = pre ++ .call .onDisconnect :: post →
    ∃ t conn, Task.run e w pre = some t ∧ Registered t.world e.server t.id conn

section Lifecycle

variable {e : GatewayEndpoint N V} {w : World N} {t : Task N V} {labels : List (Label N V)}

omit [DecidableEq N] in
theorem stage_of_finished (h : t.finished) : Stage.of t.pc = .ended ∨ Stage.of t.pc = .unwound := by
  rcases h with h | h
  · exact Or.inl (by rw [h]; rfl)
  · exact Or.inr (by rw [h]; rfl)

/-- The dispatch is one of the loop. -/
theorem greeted_of_dispatch {t' : Task N V} (h : t.step e .dispatch = some t') :
    (Stage.of t.pc).greeted = true := by
  rcases task_step_cases h with ⟨a, ha, -⟩ | ⟨hstep, -⟩
  · cases ha
  · generalize Stage.of t.pc = s at hstep ⊢
    generalize Stage.of t'.pc = s' at hstep
    cases hstep with
    | serve _ hl => rfl
    | stop _ hl => rfl

theorem live_of_call_onDisconnect {t' : Task N V} (h : t.step e (.call .onDisconnect) = some t') :
    (Stage.of t.pc).live = true := by
  rcases task_step_cases h with ⟨a, ha, -⟩ | ⟨hstep, -⟩
  · cases ha
  · generalize Stage.of t.pc = s at hstep ⊢
    generalize Stage.of t'.pc = s' at hstep
    cases hstep with
    | serve _ hl => rfl
    | stop _ hl => rfl
    | part => rfl

/-- **The lifecycle is kept exactly when no user code panics.** In every run of `serve_connection`
that is over, with any messages, any death of the writer, any behaviour of the user code and any
steps of others. -/
theorem lifecycle_iff (hrun : Task.run e w labels = some t) (hfinished : t.finished) :
    Lifecycle e w labels ↔ .panics ∉ labels := by
  have htraced := traced_run hrun
  constructor
  · intro h hpanics
    have hlive : (Stage.of t.pc).live = true := by
      rw [htraced.unwound.mpr hpanics]
      rfl
    obtain ⟨conn, hreg, -⟩ := htraced.live hlive
    exact h.reclaimed t hrun conn hreg
  · intro hpanics
    have hstage : Stage.of t.pc = .ended := by
      rcases stage_of_finished hfinished with h | h
      · exact h
      · exact absurd (htraced.unwound.mp h) hpanics
    have hcalled : ∀ hook, labels.countP (Label.calls hook) = (Stage.of t.pc).called hook :=
      htraced.called fun h => hpanics (htraced.unwound.mp h)
    refine ⟨fun t' hrun' conn => ?_, ?_, ?_, ?_, ?_⟩
    · rw [hrun] at hrun'
      cases hrun'
      exact htraced.gone (by rw [hstage]; rfl) conn
    · rw [hcalled, hstage]
      rfl
    · rintro pre post rfl
      obtain ⟨t₀, t₁, h₀, hstep⟩ := run_split hrun
      exact (traced_run h₀).greeted (greeted_of_dispatch hstep)
    · rw [hcalled, hstage]
      rfl
    · rintro pre post rfl
      obtain ⟨t₀, t₁, h₀, hstep⟩ := run_split hrun
      obtain ⟨conn, hreg, -⟩ := (traced_run h₀).live (live_of_call_onDisconnect hstep)
      exact ⟨t₀, conn, h₀, hreg⟩

end Lifecycle

/-! ## A chat gateway -/

/-- Values are their texts; the client sends one envelope. -/
def chatJson : Json String where
  fromStr text :=
    if text = "\x7b\"event\":\"say\",\"data\":1\x7d" then .ok ⟨"say", "1"⟩
    else .error "expected value at line 1 column 1"
  toString envelope :=
    some ("\x7b\"event\":\"" ++ envelope.event ++ "\",\"data\":" ++ envelope.data ++ "\x7d")
  error message := "\x7b\"error\":\"" ++ message ++ "\"\x7d"

def chat : GatewayEndpoint ChatNs String := ⟨.global, fun _ => 0, false, chatJson⟩

/-- The client says something and closes; the handler returns nothing. -/
def said : List (Label ChatNs String) :=
  [.insert, .call .onConnect, .returns .onConnect,
    .read (.text "\x7b\"event\":\"say\",\"data\":1\x7d"), .dispatch, .replies .none, .read .close,
    .call .onDisconnect, .returns .onDisconnect, .disconnect, .drained]

theorem said_lifecycle : Lifecycle chat World.init said :=
  (lifecycle_iff rfl (Or.inl rfl)).mpr (by simp [said])

/-- The client says something, and the handler panics. -/
def crashed : List (Label ChatNs String) :=
  [.insert, .call .onConnect, .returns .onConnect,
    .read (.text "\x7b\"event\":\"say\",\"data\":1\x7d"), .dispatch, .panics]

/-- The run is over, the connection is still in the registry, and `on_disconnect` was not run. -/
theorem crashed_not_reclaimed :
    (∃ t, Task.run chat World.init crashed = some t ∧ t.finished ∧
      Registered t.world ChatNs.global t.id ⟨t.outbox, ∅⟩) ∧
    crashed.countP (Label.calls .onDisconnect) = 0 ∧ ¬ Lifecycle chat World.init crashed := by
  have hrun : ∃ t, Task.run chat World.init crashed = some t ∧ t.finished ∧
      Registered t.world ChatNs.global t.id ⟨t.outbox, ∅⟩ :=
    ⟨_, rfl, Or.inr rfl, rfl⟩
  refine ⟨hrun, rfl, fun h => ?_⟩
  obtain ⟨t, ht, -, hreg⟩ := hrun
  exact h.reclaimed t ht _ hreg

end Nestrs.Ws
