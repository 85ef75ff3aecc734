import Mathlib.Algebra.Group.Nat.Defs
import Mathlib.Data.List.AList
import Mathlib.Data.Finset.Basic
import Mathlib.Logic.Function.Basic

/-!
# The WebSocket registries

Model of `crates/nestrs-ws/src/server.rs`. A `WsServer` maps the ids of its live connections to
their outboxes and rooms, and counts the ids it has given out; there is one for each namespace.
Connections and services act on it in any interleaving. Every method of `Registry` and `disconnect`
hold the lock throughout, so each is one atomic step; `connect` is two, the allocation of an id
(`fetch_add`) and the insertion under the lock.

An outbox is the channel of a connection, created with it (`serve_connection`). It is modelled by
the frames it has accepted, in order; the writer that takes them out is on the other side. Its
receiver may be dropped at any time (`close`), after which a send fails. The channels of all
namespaces live in one heap, so that nothing about isolation is built in. `WsEnvelope::encode` gives
a frame or fails, in which case nothing is sent.

A connection's task inserts the id it was given, may send replies to its own outbox, and in the end
disconnects itself. Anybody may join, leave and emit, with any id.

Results:
* `sendAll_spec`: what one emit queues, and what it returns;
* `inv_after`: no two connections share an id of a namespace, or an outbox, along any run;
* **`registry_delivery`**: ids, deliveries, counts, rooms and isolation along any run.
-/

namespace Nestrs.Ws

abbrev ConnId := Nat

/-- A rendered envelope. -/
abbrev Frame := String

/-- `Conn`: the outbox, by its place in the heap, and the rooms. -/
structure Conn where
  outbox : Nat
  rooms : Finset String

/-- `WsServer<N>`. -/
structure WsServer where
  conns : AList fun _ : ConnId => Conn
  next : Nat

/-- A channel: whether its receiver is there, and the frames it has accepted. -/
structure Outbox where
  isOpen : Bool
  queued : List Frame

/-- The heap of channels. -/
abbrev Outboxes := Nat → Outbox

/-! ## The operations -/

/-- `UnboundedSender::send`. -/
def send (os : Outboxes) (o : Nat) (frame : Frame) : Bool × Outboxes :=
  if (os o).isOpen then
    (true, Function.update os o { os o with queued := (os o).queued ++ [frame] })
  else (false, os)

/-- The loop of an emit over some connections: the number that accepted. -/
def sendAll (frame : Frame) : List Conn → Outboxes → Nat × Outboxes
  | [], os => (0, os)
  | conn :: conns, os =>
    let (accepted, os) := send os conn.outbox frame
    let (count, os) := sendAll frame conns os
    (if accepted then count + 1 else count, os)

namespace WsServer

/-- `WsServer::default`. -/
def empty : WsServer := ⟨∅, 0⟩

/-- `self.conns.lock().values()`. -/
def values (server : WsServer) : List Conn := server.conns.entries.map Sigma.snd

/-- The first step of `connect`: `self.next.fetch_add(1)`. -/
def allocate (server : WsServer) : ConnId × WsServer :=
  (server.next, { server with next := (server.next + 1) % 2 ^ 64 })

/-- The second step of `connect`. -/
def insert (server : WsServer) (id : ConnId) (outbox : Nat) : WsServer :=
  { server with conns := server.conns.insert id ⟨outbox, ∅⟩ }

/-- `WsServer::disconnect`. -/
def disconnect (server : WsServer) (id : ConnId) : WsServer :=
  { server with conns := server.conns.erase id }

/-- `if let Some(conn) = self.conns.lock().get_mut(&id)`, on the rooms. -/
def modify (server : WsServer) (id : ConnId) (f : Finset String → Finset String) : WsServer :=
  match server.conns.lookup id with
  | some conn => { server with conns := server.conns.insert id { conn with rooms := f conn.rooms } }
  | none => server

/-- `Registry::join`. -/
def join (server : WsServer) (id : ConnId) (room : String) : WsServer :=
  server.modify id fun rooms => Insert.insert room rooms

/-- `Registry::leave`. -/
def leave (server : WsServer) (id : ConnId) (room : String) : WsServer :=
  server.modify id fun rooms => rooms.erase room

/-- `Registry::broadcast_value`. -/
def broadcastValue (server : WsServer) (encoded : Option Frame) (os : Outboxes) : Nat × Outboxes :=
  match encoded with
  | none => (0, os)
  | some frame => sendAll frame server.values os

/-- `Registry::emit_to_value`. -/
def emitToValue (server : WsServer) (room : String) (encoded : Option Frame) (os : Outboxes) :
    Nat × Outboxes :=
  match encoded with
  | none => (0, os)
  | some frame => sendAll frame (server.values.filter fun conn => room ∈ conn.rooms) os

/-- `Registry::emit_value`. -/
def emitValue (server : WsServer) (id : ConnId) (encoded : Option Frame) (os : Outboxes) :
    Bool × Outboxes :=
  match encoded with
  | none => (false, os)
  | some frame =>
    match server.conns.lookup id with
    | some conn => send os conn.outbox frame
    | none => (false, os)

end WsServer

/-! ## Interleavings -/

/-- The registries of all namespaces, the channels, the number of channels created, and the
connections between the two steps of `connect`: their namespace, id and outbox. -/
structure World (N : Type) where
  servers : N → WsServer
  outboxes : Outboxes
  created : Nat
  connecting : List (N × ConnId × Nat)

/-- An atomic step of a connection or a service. -/
inductive Action (N : Type) where
  | allocate (ns : N)
  | insert (ns : N) (id : ConnId) (outbox : Nat)
  | join (ns : N) (id : ConnId) (room : String)
  | leave (ns : N) (id : ConnId) (room : String)
  | disconnect (ns : N) (id : ConnId)
  | broadcast (ns : N) (encoded : Option Frame)
  | emitTo (ns : N) (room : String) (encoded : Option Frame)
  | emit (ns : N) (id : ConnId) (encoded : Option Frame)
  | reply (ns : N) (id : ConnId) (frame : Frame)
  | close (outbox : Nat)

/-- What a step returns. -/
inductive Outcome where
  | done
  | allocated (id : ConnId)
  | count (n : Nat)
  | flag (b : Bool)
deriving DecidableEq, Repr

variable {N : Type} [DecidableEq N]

/-- Nothing connected, no channel created. -/
def World.init : World N := ⟨fun _ => .empty, fun _ => ⟨false, []⟩, 0, []⟩

namespace World

/-- The registry of a namespace replaced. -/
def withServer (w : World N) (ns : N) (server : WsServer) : World N :=
  { w with servers := Function.update w.servers ns server }

/-- One step. -/
def step (w : World N) : Action N → Outcome × World N
  | .allocate ns =>
    let (id, server) := (w.servers ns).allocate
    (.allocated id, { w.withServer ns server with
      outboxes := Function.update w.outboxes w.created ⟨true, []⟩
      created := w.created + 1
      connecting := (ns, id, w.created) :: w.connecting })
  | .insert ns id outbox =>
    (.done, { w.withServer ns ((w.servers ns).insert id outbox) with
      connecting := w.connecting.filter fun c => c ≠ (ns, id, outbox) })
  | .join ns id room => (.done, w.withServer ns ((w.servers ns).join id room))
  | .leave ns id room => (.done, w.withServer ns ((w.servers ns).leave id room))
  | .disconnect ns id => (.done, w.withServer ns ((w.servers ns).disconnect id))
  | .broadcast ns encoded =>
    let (n, outboxes) := (w.servers ns).broadcastValue encoded w.outboxes
    (.count n, { w with outboxes })
  | .emitTo ns room encoded =>
    let (n, outboxes) := (w.servers ns).emitToValue room encoded w.outboxes
    (.count n, { w with outboxes })
  | .emit ns id encoded =>
    let (b, outboxes) := (w.servers ns).emitValue id encoded w.outboxes
    (.flag b, { w with outboxes })
  | .reply ns id frame =>
    match (w.servers ns).conns.lookup id with
    | some conn => (.done, { w with outboxes := (send w.outboxes conn.outbox frame).2 })
    | none => (.done, w)
  | .close outbox =>
    (.done, { w with
      outboxes := Function.update w.outboxes outbox { w.outboxes outbox with isOpen := false } })

/-- What the steps of a connection's own task wait for: it inserts the id it was given, and
disconnects or replies while it is registered. -/
def Enabled (w : World N) : Action N → Prop
  | .insert ns id outbox => (ns, id, outbox) ∈ w.connecting
  | .disconnect ns id => (w.servers ns).conns.lookup id ≠ none
  | .reply ns id _ => (w.servers ns).conns.lookup id ≠ none
  | _ => True

end World

instance World.instDecidableEnabled (w : World N) : (a : Action N) → Decidable (w.Enabled a)
  | .insert ns id outbox => inferInstanceAs (Decidable ((ns, id, outbox) ∈ w.connecting))
  | .disconnect ns id => inferInstanceAs (Decidable ((w.servers ns).conns.lookup id ≠ none))
  | .reply ns id _ => inferInstanceAs (Decidable ((w.servers ns).conns.lookup id ≠ none))
  | .allocate _ | .join _ _ _ | .leave _ _ _ | .broadcast _ _ | .emitTo _ _ _ | .emit _ _ _
  | .close _ => isTrue trivial

/-- The state after some steps from the start. -/
def after (actions : List (Action N)) : World N :=
  actions.foldl (fun w a => (w.step a).2) World.init

/-- A run: every step was enabled when it was taken. -/
def Valid (actions : List (Action N)) : Prop :=
  ∀ pre a post, actions = pre ++ a :: post → (after pre).Enabled a

/-! ## One emit -/

theorem send_spec (os : Outboxes) (o : Nat) (frame : Frame) :
    (send os o frame).1 = (os o).isOpen ∧ ∀ o',
      ((send os o frame).2 o').isOpen = (os o').isOpen ∧
      ((send os o frame).2 o').queued =
        (os o').queued ++ if o' = o ∧ (os o).isOpen = true then [frame] else [] := by
  unfold send
  by_cases hopen : (os o).isOpen = true
  · rw [if_pos hopen]
    refine ⟨hopen.symm, fun o' => ?_⟩
    by_cases ho : o' = o
    · subst ho
      simp [hopen]
    · simp [ho]
  · rw [if_neg hopen]
    exact ⟨by simpa using hopen, fun o' => by simp [hopen]⟩

/-- **What an emit does**: every open outbox of its connections gets the frame once, no other gets
anything, and it returns how many they are. -/
theorem sendAll_spec (frame : Frame) {conns : List Conn} (hnodup : (conns.map Conn.outbox).Nodup)
    (os : Outboxes) :
    (sendAll frame conns os).1 = conns.countP (fun conn => (os conn.outbox).isOpen) ∧ ∀ o,
      ((sendAll frame conns os).2 o).isOpen = (os o).isOpen ∧
      ((sendAll frame conns os).2 o).queued = (os o).queued ++
        if o ∈ conns.map Conn.outbox ∧ (os o).isOpen = true then [frame] else [] := by
  induction conns generalizing os with
  | nil => exact ⟨rfl, fun o => ⟨rfl, by simp [sendAll]⟩⟩
  | cons conn conns ih =>
    rw [List.map_cons, List.nodup_cons] at hnodup
    obtain ⟨hfresh, hnodup⟩ := hnodup
    obtain ⟨haccepted, hsend⟩ := send_spec os conn.outbox frame
    obtain ⟨hcount, hall⟩ := ih hnodup (send os conn.outbox frame).2
    -- the other outboxes are as they were
    have hsame : conns.countP (fun c => ((send os conn.outbox frame).2 c.outbox).isOpen) =
        conns.countP fun c => (os c.outbox).isOpen := by
      refine List.countP_congr fun c _ => ?_
      rw [(hsend c.outbox).1]
    unfold sendAll
    simp only
    refine ⟨?_, fun o => ?_⟩
    · rw [hcount, hsame, haccepted, List.countP_cons]
      split
      · rfl
      · rfl
    · obtain ⟨hopen, hqueued⟩ := hall o
      rw [hopen, (hsend o).1]
      refine ⟨rfl, ?_⟩
      rw [hqueued, (hsend o).1, (hsend o).2, List.append_assoc, List.map_cons]
      by_cases ho : o = conn.outbox
      · subst ho
        simp [hfresh]
      · simp [ho]

/-! ## What a step leaves -/

/-- The connection is in the registry of its namespace. -/
def Registered (w : World N) (ns : N) (id : ConnId) (conn : Conn) : Prop :=
  (w.servers ns).conns.lookup id = some conn

/-- The connection, registered or about to be, holds the outbox. -/
def Holds (w : World N) (ns : N) (id : ConnId) (o : Nat) : Prop :=
  (ns, id, o) ∈ w.connecting ∨ ∃ conn, Registered w ns id conn ∧ conn.outbox = o

/-- The namespace whose registry the step acts on. -/
def Action.namespace : Action N → Option N
  | allocate ns | insert ns _ _ | join ns _ _ | leave ns _ _ | disconnect ns _ | broadcast ns _
  | emitTo ns _ _ | emit ns _ _ | reply ns _ _ => some ns
  | close _ => none

theorem lookup_modify (server : WsServer) (id : ConnId) (f : Finset String → Finset String)
    (id' : ConnId) :
    (server.modify id f).conns.lookup id' =
      if id' = id then (server.conns.lookup id').map fun conn => { conn with rooms := f conn.rooms }
      else server.conns.lookup id' := by
  unfold WsServer.modify
  by_cases hid : id' = id
  · subst hid
    cases hlookup : server.conns.lookup id' with
    | none => simp [hlookup]
    | some conn => simp
  · cases hlookup : server.conns.lookup id with
    | none => simp [hid]
    | some conn => simp [hid]

theorem next_modify (server : WsServer) (id : ConnId) (f : Finset String → Finset String) :
    (server.modify id f).next = server.next := by
  unfold WsServer.modify
  split
  · rfl
  · rfl

section Step

variable {w : World N} {a : Action N} {ns : N} {id : ConnId} {conn : Conn}

theorem servers_withServer (w : World N) (ns : N) (server : WsServer) (ns' : N) :
    (w.withServer ns server).servers ns' = if ns' = ns then server else w.servers ns' := by
  unfold World.withServer
  by_cases h : ns' = ns
  · subst h
    simp
  · simp [h]

/-- **Isolation**: a step leaves the registry of another namespace as it is. -/
theorem servers_step_of_ne (h : a.namespace ≠ some ns) :
    (w.step a).2.servers ns = w.servers ns := by
  have hne : ∀ ns', a.namespace = some ns' → ns ≠ ns' := by
    rintro ns' hns rfl
    exact h hns
  cases a with
  | allocate ns' => exact (servers_withServer w ns' _ ns).trans (if_neg (hne ns' rfl))
  | insert ns' id outbox => exact (servers_withServer w ns' _ ns).trans (if_neg (hne ns' rfl))
  | join ns' id room => exact (servers_withServer w ns' _ ns).trans (if_neg (hne ns' rfl))
  | leave ns' id room => exact (servers_withServer w ns' _ ns).trans (if_neg (hne ns' rfl))
  | disconnect ns' id => exact (servers_withServer w ns' _ ns).trans (if_neg (hne ns' rfl))
  | broadcast ns' encoded => rfl
  | emitTo ns' room encoded => rfl
  | emit ns' id encoded => rfl
  | reply ns' id frame =>
    unfold World.step
    simp only
    split
    · rfl
    · rfl
  | close outbox => rfl

/-- What a step does to the entry of an id. -/
def Action.entry (ns : N) (id : ConnId) (a : Action N) (old : Option Conn) : Option Conn :=
  match a with
  | .insert ns' id' outbox => if ns' = ns ∧ id' = id then some ⟨outbox, ∅⟩ else old
  | .join ns' id' room =>
    if ns' = ns ∧ id' = id then
      old.map fun conn => { conn with rooms := Insert.insert room conn.rooms }
    else old
  | .leave ns' id' room =>
    if ns' = ns ∧ id' = id then old.map fun conn => { conn with rooms := conn.rooms.erase room }
    else old
  | .disconnect ns' id' => if ns' = ns ∧ id' = id then none else old
  | _ => old

/-- **What a step leaves under an id.** -/
theorem lookup_step :
    ((w.step a).2.servers ns).conns.lookup id = a.entry ns id ((w.servers ns).conns.lookup id) := by
  by_cases hns : a.namespace = some ns
  · cases a with
    | allocate ns' =>
      cases hns
      simp [World.step, servers_withServer, WsServer.allocate, Action.entry]
    | insert ns' id' outbox =>
      cases hns
      by_cases hid : id = id'
      · subst hid
        simp [World.step, servers_withServer, WsServer.insert, Action.entry]
      · simp [World.step, servers_withServer, WsServer.insert, Action.entry, hid, Ne.symm hid]
    | join ns' id' room =>
      cases hns
      simp [World.step, servers_withServer, WsServer.join, lookup_modify, Action.entry, eq_comm]
    | leave ns' id' room =>
      cases hns
      simp [World.step, servers_withServer, WsServer.leave, lookup_modify, Action.entry, eq_comm]
    | disconnect ns' id' =>
      cases hns
      by_cases hid : id = id'
      · subst hid
        simp [World.step, servers_withServer, WsServer.disconnect, Action.entry]
      · simp [World.step, servers_withServer, WsServer.disconnect, Action.entry, hid, Ne.symm hid]
    | reply ns' id' frame =>
      unfold World.step
      simp only
      split
      · rfl
      · rfl
    | close outbox => cases hns
    | _ => rfl
  · rw [servers_step_of_ne hns]
    have hother : ∀ ns' id', a.namespace = some ns' → ¬ (ns' = ns ∧ id' = id) := by
      rintro ns' id' hns' ⟨rfl, -⟩
      exact hns hns'
    cases a with
    | insert ns' id' outbox => exact (if_neg (hother ns' id' rfl)).symm
    | join ns' id' room => exact (if_neg (hother ns' id' rfl)).symm
    | leave ns' id' room => exact (if_neg (hother ns' id' rfl)).symm
    | disconnect ns' id' => exact (if_neg (hother ns' id' rfl)).symm
    | _ => rfl

/-- Where a registered connection comes from: it has just been inserted, with no rooms, or it was
there, with its outbox, and its rooms are those it had, but for the one it has joined or left. -/
theorem registered_step (h : Registered (w.step a).2 ns id conn) :
    (a = .insert ns id conn.outbox ∧ conn.rooms = ∅) ∨
      a ≠ .disconnect ns id ∧ ∃ old, Registered w ns id old ∧ old.outbox = conn.outbox ∧
        ∀ room, room ∈ conn.rooms ↔
          (room ∈ old.rooms ∧ a ≠ .leave ns id room) ∨ a = .join ns id room := by
  unfold Registered at h
  rw [lookup_step] at h
  -- a step that neither disconnects the connection nor moves it in or out of a room, and keeps it
  have hkept : a ≠ .disconnect ns id → (∀ room, a ≠ .join ns id room ∧ a ≠ .leave ns id room) →
      (w.servers ns).conns.lookup id = some conn →
      a ≠ .disconnect ns id ∧ ∃ old, Registered w ns id old ∧ old.outbox = conn.outbox ∧
        ∀ room, room ∈ conn.rooms ↔
          (room ∈ old.rooms ∧ a ≠ .leave ns id room) ∨ a = .join ns id room := by
    intro hstays hin hreg
    refine ⟨hstays, conn, hreg, rfl, fun room => ?_⟩
    simp [(hin room).1, (hin room).2]
  cases a with
  | insert ns' id' outbox =>
    unfold Action.entry at h
    simp only at h
    split at h
    · rename_i hsame
      obtain ⟨rfl, rfl⟩ := hsame
      cases h
      exact Or.inl ⟨rfl, rfl⟩
    · exact Or.inr (hkept nofun (fun room => ⟨nofun, nofun⟩) h)
  | join ns' id' room' =>
    unfold Action.entry at h
    simp only at h
    split at h
    · rename_i hsame
      obtain ⟨rfl, rfl⟩ := hsame
      obtain ⟨old, hold, rfl⟩ := Option.map_eq_some_iff.mp h
      refine Or.inr ⟨nofun, old, hold, rfl, fun room => ?_⟩
      rw [Finset.mem_insert, or_comm]
      simp [eq_comm]
    · rename_i hother
      refine Or.inr (hkept nofun (fun room => ⟨fun heq => ?_, nofun⟩) h)
      cases heq
      exact hother ⟨rfl, rfl⟩
  | leave ns' id' room' =>
    unfold Action.entry at h
    simp only at h
    split at h
    · rename_i hsame
      obtain ⟨rfl, rfl⟩ := hsame
      obtain ⟨old, hold, rfl⟩ := Option.map_eq_some_iff.mp h
      refine Or.inr ⟨nofun, old, hold, rfl, fun room => ?_⟩
      rw [Finset.mem_erase, and_comm]
      simp [eq_comm]
    · rename_i hother
      refine Or.inr (hkept nofun (fun room => ⟨nofun, fun heq => ?_⟩) h)
      cases heq
      exact hother ⟨rfl, rfl⟩
  | disconnect ns' id' =>
    unfold Action.entry at h
    simp only at h
    split at h
    · cases h
    · rename_i hother
      refine Or.inr (hkept (fun heq => ?_) (fun room => ⟨nofun, nofun⟩) h)
      cases heq
      exact hother ⟨rfl, rfl⟩
  | _ => exact Or.inr (hkept nofun (fun room => ⟨nofun, nofun⟩) h)

/-- A registered connection stays until it disconnects, with its outbox unless it is inserted
again. -/
theorem registered_of_step (h : Registered w ns id conn) (hstays : a ≠ .disconnect ns id)
    (hkeeps : ∀ o, a ≠ .insert ns id o) :
    ∃ conn', Registered (w.step a).2 ns id conn' ∧ conn'.outbox = conn.outbox := by
  unfold Registered at h ⊢
  rw [lookup_step, h]
  cases a with
  | insert ns' id' outbox =>
    have hother : ¬ (ns' = ns ∧ id' = id) := by
      rintro ⟨rfl, rfl⟩
      exact hkeeps outbox rfl
    exact ⟨conn, if_neg hother, rfl⟩
  | disconnect ns' id' =>
    have hother : ¬ (ns' = ns ∧ id' = id) := by
      rintro ⟨rfl, rfl⟩
      exact hstays rfl
    exact ⟨conn, if_neg hother, rfl⟩
  | join ns' id' room =>
    unfold Action.entry
    simp only
    split
    · exact ⟨_, rfl, rfl⟩
    · exact ⟨conn, rfl, rfl⟩
  | leave ns' id' room =>
    unfold Action.entry
    simp only
    split
    · exact ⟨_, rfl, rfl⟩
    · exact ⟨conn, rfl, rfl⟩
  | _ => exact ⟨conn, rfl, rfl⟩

theorem registered_insert (w : World N) (ns : N) (id : ConnId) (o : Nat) :
    Registered (w.step (.insert ns id o)).2 ns id ⟨o, ∅⟩ := by
  unfold Registered
  rw [lookup_step]
  exact if_pos ⟨rfl, rfl⟩

theorem not_registered_disconnect (w : World N) (ns : N) (id : ConnId) (conn : Conn) :
    ¬ Registered (w.step (.disconnect ns id)).2 ns id conn := by
  intro hreg
  rcases registered_step hreg with ⟨heq, -⟩ | ⟨hne, -⟩
  · cases heq
  · exact hne rfl

/-- The connections between the two steps of `connect`, after a step. -/
theorem connecting_step {c : N × ConnId × Nat} (h : c ∈ (w.step a).2.connecting) :
    (c ∈ w.connecting ∧ a ≠ .insert c.1 c.2.1 c.2.2) ∨
      ∃ ns, a = .allocate ns ∧ c = (ns, (w.servers ns).next, w.created) := by
  cases a with
  | allocate ns =>
    rcases List.mem_cons.mp h with rfl | h
    · exact Or.inr ⟨ns, rfl, rfl⟩
    · exact Or.inl ⟨h, nofun⟩
  | insert ns id outbox =>
    obtain ⟨hmem, hne⟩ := List.mem_filter.mp h
    refine Or.inl ⟨hmem, fun heq => ?_⟩
    cases heq
    exact absurd rfl (of_decide_eq_true hne)
  | reply ns id frame =>
    unfold World.step at h
    simp only at h
    split at h
    · exact Or.inl ⟨h, nofun⟩
    · exact Or.inl ⟨h, nofun⟩
  | _ => exact Or.inl ⟨h, nofun⟩

theorem connecting_of_step {c : N × ConnId × Nat} (h : c ∈ w.connecting)
    (hne : a ≠ .insert c.1 c.2.1 c.2.2) : c ∈ (w.step a).2.connecting := by
  cases a with
  | allocate ns => exact List.mem_cons_of_mem _ h
  | insert ns id outbox =>
    refine List.mem_filter.mpr ⟨h, decide_eq_true fun heq => ?_⟩
    subst heq
    exact hne rfl
  | reply ns id frame =>
    unfold World.step
    simp only
    split
    · exact h
    · exact h
  | _ => exact h

/-- Where a held outbox comes from: it was held, or was created by the allocation of the id. -/
theorem holds_step {o : Nat} (henabled : w.Enabled a) (h : Holds (w.step a).2 ns id o) :
    Holds w ns id o ∨ a = .allocate ns ∧ id = (w.servers ns).next ∧ o = w.created := by
  rcases h with hconnecting | ⟨conn, hreg, rfl⟩
  · rcases connecting_step hconnecting with ⟨h, -⟩ | ⟨ns', rfl, heq⟩
    · exact Or.inl (Or.inl h)
    · cases heq
      exact Or.inr ⟨rfl, rfl, rfl⟩
  · rcases registered_step hreg with ⟨rfl, -⟩ | ⟨-, old, hold, houtbox, -⟩
    · exact Or.inl (Or.inl henabled)
    · exact Or.inl (Or.inr ⟨old, hold, houtbox⟩)

/-- The step allocates an id of the namespace. -/
def Action.allocates (ns : N) : Action N → Bool
  | allocate ns' => ns' = ns
  | _ => false

theorem next_step :
    ((w.step a).2.servers ns).next =
      if a.allocates ns then ((w.servers ns).next + 1) % 2 ^ 64 else (w.servers ns).next := by
  by_cases hns : a.namespace = some ns
  · cases a with
    | allocate ns' =>
      cases hns
      simp [World.step, servers_withServer, WsServer.allocate, Action.allocates]
    | insert ns' id outbox =>
      cases hns
      simp [World.step, servers_withServer, WsServer.insert, Action.allocates]
    | join ns' id room =>
      cases hns
      simp [World.step, servers_withServer, WsServer.join, next_modify, Action.allocates]
    | leave ns' id room =>
      cases hns
      simp [World.step, servers_withServer, WsServer.leave, next_modify, Action.allocates]
    | disconnect ns' id =>
      cases hns
      simp [World.step, servers_withServer, WsServer.disconnect, Action.allocates]
    | reply ns' id frame =>
      unfold World.step
      simp only
      split
      · rfl
      · rfl
    | close outbox => cases hns
    | _ => rfl
  · rw [servers_step_of_ne hns]
    cases a with
    | allocate ns' =>
      have hne : ns' ≠ ns := fun h => hns (h ▸ rfl)
      simp [Action.allocates, hne]
    | _ => rfl

theorem created_le_step : w.created ≤ (w.step a).2.created := by
  cases a with
  | allocate ns => exact Nat.le_succ _
  | reply ns id frame =>
    unfold World.step
    simp only
    split
    · exact Nat.le_refl _
    · exact Nat.le_refl _
  | _ => exact Nat.le_refl _

end Step

/-! ## The invariant -/

/-- No two connections share an id of a namespace or an outbox; ids and outboxes come from the
counters. -/
structure Inv (w : World N) : Prop where
  below : ∀ ns id o, Holds w ns id o → id < (w.servers ns).next ∧ o < w.created
  outbox_unique : ∀ ns id ns' id' o, Holds w ns id o → Holds w ns' id' o → ns = ns' ∧ id = id'
  id_unique : ∀ ns id o o', Holds w ns id o → Holds w ns id o' → o = o'
  pending : ∀ ns id o, (ns, id, o) ∈ w.connecting → ∀ conn, ¬ Registered w ns id conn

omit [DecidableEq N] in
theorem inv_init : Inv (World.init : World N) := by
  have hnone : ∀ ns id o, ¬ Holds (World.init : World N) ns id o := by
    rintro ns id o (h | ⟨conn, hreg, -⟩)
    · exact absurd h List.not_mem_nil
    · cases hreg
  exact ⟨fun ns id o h => absurd h (hnone ns id o), fun ns id _ _ o h => absurd h (hnone ns id o),
    fun ns id o _ h => absurd h (hnone ns id o),
    fun ns id o h => absurd (Or.inl h) (hnone ns id o)⟩

/-- The invariant is preserved while the counter does not wrap. -/
theorem inv_step {w : World N} {a : Action N} (hinv : Inv w) (henabled : w.Enabled a)
    (hroom : ∀ ns, a.allocates ns = true → (w.servers ns).next + 1 < 2 ^ 64) :
    Inv (w.step a).2 := by
  have hnext : ∀ ns, (w.servers ns).next ≤ ((w.step a).2.servers ns).next := by
    intro ns
    rw [next_step]
    split
    · rename_i halloc
      rw [Nat.mod_eq_of_lt (hroom ns halloc)]
      exact Nat.le_succ _
    · exact Nat.le_refl _
  have hcreated : w.created ≤ (w.step a).2.created := created_le_step
  refine ⟨?_, ?_, ?_, ?_⟩
  · intro ns id o h
    rcases holds_step henabled h with hold | ⟨rfl, rfl, rfl⟩
    · obtain ⟨hid, ho⟩ := hinv.below ns id o hold
      exact ⟨lt_of_lt_of_le hid (hnext ns), lt_of_lt_of_le ho hcreated⟩
    · refine ⟨?_, Nat.lt_succ_self _⟩
      have halloc : (Action.allocate ns).allocates ns = true := by simp [Action.allocates]
      rw [next_step, if_pos halloc, Nat.mod_eq_of_lt (hroom ns halloc)]
      exact Nat.lt_succ_self _
  · intro ns id ns' id' o h h'
    rcases holds_step henabled h with hold | ⟨rfl, rfl, rfl⟩
    · rcases holds_step henabled h' with hold' | ⟨rfl, rfl, rfl⟩
      · exact hinv.outbox_unique ns id ns' id' o hold hold'
      · exact absurd (hinv.below ns id _ hold).2 (lt_irrefl _)
    · rcases holds_step henabled h' with hold' | ⟨heq, rfl, -⟩
      · exact absurd (hinv.below ns' id' _ hold').2 (lt_irrefl _)
      · cases heq
        exact ⟨rfl, rfl⟩
  · intro ns id o o' h h'
    rcases holds_step henabled h with hold | ⟨rfl, rfl, rfl⟩
    · rcases holds_step henabled h' with hold' | ⟨rfl, rfl, rfl⟩
      · exact hinv.id_unique ns id o o' hold hold'
      · exact absurd (hinv.below ns _ o hold).1 (lt_irrefl _)
    · rcases holds_step henabled h' with hold' | ⟨-, -, rfl⟩
      · exact absurd (hinv.below ns _ o' hold').1 (lt_irrefl _)
      · rfl
  · intro ns id o hconnecting conn hreg
    rcases connecting_step hconnecting with ⟨hold, hne⟩ | ⟨ns', rfl, heq⟩
    · rcases registered_step hreg with ⟨rfl, -⟩ | ⟨-, old, hreg', -, -⟩
      · -- the connection inserted is the one that was connecting under the id
        obtain rfl := hinv.id_unique ns id o conn.outbox (Or.inl hold) (Or.inl henabled)
        exact hne rfl
      · exact hinv.pending ns id o hold old hreg'
    · cases heq
      rcases registered_step hreg with ⟨heq, -⟩ | ⟨-, old, hreg', -, -⟩
      · cases heq
      · exact absurd (hinv.below ns _ _ (Or.inr ⟨old, hreg', rfl⟩)).1 (lt_irrefl _)

/-! ## Along a run -/

section Run

variable {actions pre post : List (Action N)} {a : Action N}

theorem after_snoc (pre : List (Action N)) (a : Action N) :
    after (pre ++ [a]) = ((after pre).step a).2 := by
  unfold after
  rw [List.foldl_append]
  rfl

theorem Valid.append_left (h : Valid (pre ++ post)) : Valid pre := by
  rintro p a q rfl
  exact h p a (q ++ post) (by simp)

theorem Valid.snoc (h : Valid pre) (ha : (after pre).Enabled a) : Valid (pre ++ [a]) := by
  intro p b q heq
  cases q using List.reverseRecOn with
  | nil =>
    obtain ⟨rfl, hb⟩ := List.append_inj' heq rfl
    cases hb
    exact ha
  | append_singleton q c =>
    have hsplit : pre ++ [a] = (p ++ b :: q) ++ [c] := by rw [heq]; simp
    obtain ⟨rfl, -⟩ := List.append_inj' hsplit rfl
    exact h p b q rfl

/-- The number of ids of the namespace allocated. -/
def allocations (ns : N) (actions : List (Action N)) : Nat :=
  actions.countP fun a => a.allocates ns

theorem allocations_snoc (ns : N) (pre : List (Action N)) (a : Action N) :
    allocations ns (pre ++ [a]) = allocations ns pre + if a.allocates ns then 1 else 0 := by
  unfold allocations
  rw [List.countP_append, List.countP_singleton]

/-- While it does not wrap, the counter is the number of ids allocated. -/
theorem next_after {ns : N} (hcount : allocations ns actions < 2 ^ 64) :
    ((after actions).servers ns).next = allocations ns actions := by
  induction actions using List.reverseRecOn with
  | nil => rfl
  | append_singleton pre a ih =>
    rw [allocations_snoc] at hcount ⊢
    rw [after_snoc, next_step, ih (by omega)]
    split
    · rename_i halloc
      rw [if_pos halloc] at hcount
      exact Nat.mod_eq_of_lt hcount
    · rfl

/-- **The invariant holds along every run.** -/
theorem inv_after (hvalid : Valid actions) (hcount : ∀ ns, allocations ns actions < 2 ^ 64) :
    Inv (after actions) := by
  induction actions using List.reverseRecOn with
  | nil => exact inv_init
  | append_singleton pre a ih =>
    have hpre : ∀ ns, allocations ns pre < 2 ^ 64 := by
      intro ns
      have h := hcount ns
      rw [allocations_snoc] at h
      omega
    rw [after_snoc]
    refine inv_step (ih hvalid.append_left hpre) (hvalid pre a [] rfl) fun ns halloc => ?_
    have h := hcount ns
    rw [allocations_snoc, if_pos halloc] at h
    rw [next_after (hpre ns)]
    exact h

end Run

/-! ## Deliveries -/

/-- The frame the step sends to the connection. -/
def addressed (ns : N) (id : ConnId) (conn : Conn) : Action N → Option Frame
  | .broadcast ns' encoded => if ns' = ns then encoded else none
  | .emitTo ns' room encoded => if ns' = ns ∧ room ∈ conn.rooms then encoded else none
  | .emit ns' id' encoded => if ns' = ns ∧ id' = id then encoded else none
  | .reply ns' id' frame => if ns' = ns ∧ id' = id then some frame else none
  | _ => none

section Deliver

variable {w : World N} {ns : N} {id : ConnId} {conn : Conn}

theorem addressed_of_ne {a : Action N} (h : a.namespace ≠ some ns) :
    addressed ns id conn a = none := by
  have hne : ∀ ns', a.namespace = some ns' → ns' ≠ ns := by
    rintro ns' hns rfl
    exact h hns
  cases a with
  | broadcast ns' encoded => exact if_neg (hne ns' rfl)
  | emitTo ns' room encoded => exact if_neg fun h => hne ns' rfl h.1
  | emit ns' id' encoded => exact if_neg fun h => hne ns' rfl h.1
  | reply ns' id' frame => exact if_neg fun h => hne ns' rfl h.1
  | _ => rfl

theorem mem_values {server : WsServer} :
    conn ∈ server.values ↔ ∃ id, server.conns.lookup id = some conn := by
  unfold WsServer.values
  rw [List.mem_map]
  constructor
  · rintro ⟨e, he, rfl⟩
    exact ⟨e.1, AList.mem_lookup_iff.mpr he⟩
  · rintro ⟨id, hid⟩
    exact ⟨⟨id, conn⟩, AList.mem_lookup_iff.mp hid, rfl⟩

omit [DecidableEq N] in
/-- The connections of a registry have distinct outboxes. -/
theorem nodup_outboxes (hinv : Inv w) (ns : N) :
    ((w.servers ns).values.map Conn.outbox).Nodup := by
  unfold WsServer.values
  rw [List.map_map]
  refine List.Nodup.map_on ?_ (w.servers ns).conns.nodupKeys.nodup
  rintro ⟨id, conn⟩ he ⟨id', conn'⟩ he' houtbox
  have hreg : Registered w ns id conn := AList.mem_lookup_iff.mpr he
  have hreg' : Registered w ns id' conn' := AList.mem_lookup_iff.mpr he'
  obtain ⟨-, rfl⟩ := hinv.outbox_unique ns id ns id' conn.outbox (Or.inr ⟨conn, hreg, rfl⟩)
    (Or.inr ⟨conn', hreg', houtbox.symm⟩)
  unfold Registered at hreg hreg'
  rw [hreg] at hreg'
  cases hreg'
  rfl

omit [DecidableEq N] in
/-- The outbox of a connection is among those of a registry iff it is of that namespace. -/
theorem mem_outboxes_iff (hinv : Inv w) (hreg : Registered w ns id conn) (ns' : N)
    (p : Conn → Bool) :
    conn.outbox ∈ ((w.servers ns').values.filter p).map Conn.outbox ↔ ns' = ns ∧ p conn := by
  constructor
  · intro h
    obtain ⟨conn', hconn', houtbox⟩ := List.mem_map.mp h
    obtain ⟨hvalue, hp⟩ := List.mem_filter.mp hconn'
    obtain ⟨id', hreg'⟩ := mem_values.mp hvalue
    obtain ⟨rfl, rfl⟩ := hinv.outbox_unique ns' id' ns id conn.outbox
      (Or.inr ⟨conn', hreg', houtbox⟩) (Or.inr ⟨conn, hreg, rfl⟩)
    unfold Registered at hreg
    rw [hreg] at hreg'
    cases hreg'
    exact ⟨rfl, hp⟩
  · rintro ⟨rfl, hp⟩
    exact List.mem_map.mpr ⟨conn, List.mem_filter.mpr ⟨mem_values.mpr ⟨id, hreg⟩, hp⟩, rfl⟩

omit [DecidableEq N] in
/-- What an emit to some connections of a registry queues to an outbox. -/
theorem queued_sendAll (hinv : Inv w) (ns : N) (p : Conn → Bool) (frame : Frame) (o : Nat) :
    ((sendAll frame ((w.servers ns).values.filter p) w.outboxes).2 o).queued =
      (w.outboxes o).queued ++
        if o ∈ ((w.servers ns).values.filter p).map Conn.outbox ∧ (w.outboxes o).isOpen = true
          then [frame] else [] :=
  ((sendAll_spec frame ((nodup_outboxes hinv ns).sublist (List.filter_sublist.map _))
    w.outboxes).2 o).2

theorem filter_true (l : List Conn) : l.filter (fun _ => true) = l := by simp

/-- **What a step queues to a registered connection**: the frame it addresses to it, once, if its
outbox is open. -/
theorem queued_step (hinv : Inv w) (hreg : Registered w ns id conn) (a : Action N) :
    ((w.step a).2.outboxes conn.outbox).queued = (w.outboxes conn.outbox).queued ++
      if (w.outboxes conn.outbox).isOpen then (addressed ns id conn a).toList else [] := by
  have hbelow : conn.outbox < w.created := (hinv.below ns id _ (Or.inr ⟨conn, hreg, rfl⟩)).2
  -- a direct send to a connection of some registry
  have hsend : ∀ ns' id' conn' frame, Registered w ns' id' conn' →
      ((send w.outboxes conn'.outbox frame).2 conn.outbox).queued =
        (w.outboxes conn.outbox).queued ++ if (w.outboxes conn.outbox).isOpen then
          (if ns' = ns ∧ id' = id then some frame else none).toList else [] := by
    intro ns' id' conn' frame hreg'
    rw [((send_spec w.outboxes conn'.outbox frame).2 conn.outbox).2]
    by_cases hsame : ns' = ns ∧ id' = id
    · obtain ⟨rfl, rfl⟩ := hsame
      unfold Registered at hreg hreg'
      rw [hreg] at hreg'
      cases hreg'
      simp
    · have hne : conn.outbox ≠ conn'.outbox := by
        intro houtbox
        obtain ⟨rfl, rfl⟩ := hinv.outbox_unique ns' id' ns id conn.outbox
          (Or.inr ⟨conn', hreg', houtbox.symm⟩) (Or.inr ⟨conn, hreg, rfl⟩)
        exact hsame ⟨rfl, rfl⟩
      simp [hne, hsame]
  cases a with
  | allocate ns' =>
    have hne : conn.outbox ≠ w.created := Nat.ne_of_lt hbelow
    simp [World.step, addressed, hne]
  | broadcast ns' encoded =>
    cases encoded with
    | none => simp [World.step, WsServer.broadcastValue, addressed]
    | some frame =>
      simp only [World.step, WsServer.broadcastValue, addressed]
      rw [← filter_true (w.servers ns').values, queued_sendAll hinv]
      simp only [mem_outboxes_iff hinv hreg]
      by_cases hns : ns' = ns
      · simp [hns]
      · simp [hns]
  | emitTo ns' room encoded =>
    cases encoded with
    | none => simp [World.step, WsServer.emitToValue, addressed]
    | some frame =>
      simp only [World.step, WsServer.emitToValue, addressed]
      rw [queued_sendAll hinv]
      simp only [mem_outboxes_iff hinv hreg, decide_eq_true_eq]
      by_cases hroom : ns' = ns ∧ room ∈ conn.rooms
      · simp [hroom]
      · simp [hroom]
  | emit ns' id' encoded =>
    cases encoded with
    | none => simp [World.step, WsServer.emitValue, addressed]
    | some frame =>
      simp only [World.step, WsServer.emitValue, addressed]
      cases hlookup : (w.servers ns').conns.lookup id' with
      | none =>
        have hne : ¬ (ns' = ns ∧ id' = id) := by
          rintro ⟨rfl, rfl⟩
          unfold Registered at hreg
          rw [hreg] at hlookup
          cases hlookup
        simp [hne]
      | some conn' => exact hsend ns' id' conn' frame hlookup
  | reply ns' id' frame =>
    unfold World.step addressed
    simp only
    cases hlookup : (w.servers ns').conns.lookup id' with
    | none =>
      have hne : ¬ (ns' = ns ∧ id' = id) := by
        rintro ⟨rfl, rfl⟩
        unfold Registered at hreg
        rw [hreg] at hlookup
        cases hlookup
      simp [hne]
    | some conn' => exact hsend ns' id' conn' frame hlookup
  | close outbox =>
    by_cases ho : conn.outbox = outbox
    · subst ho
      simp [World.step, addressed]
    · simp [World.step, addressed, ho]
  | _ => simp [World.step, World.withServer, addressed]

/-- A step queues nothing to an outbox that no registered connection has. -/
theorem queued_step_of_unregistered (hinv : Inv w) {o : Nat} (ho : o < w.created)
    (hnone : ∀ ns id conn, Registered w ns id conn → conn.outbox ≠ o) (a : Action N) :
    ((w.step a).2.outboxes o).queued = (w.outboxes o).queued := by
  have hall : ∀ ns p frame,
      ((sendAll frame ((w.servers ns).values.filter p) w.outboxes).2 o).queued =
        (w.outboxes o).queued := by
    intro ns p frame
    rw [queued_sendAll hinv, if_neg, List.append_nil]
    rintro ⟨hmem, -⟩
    obtain ⟨conn, hconn, houtbox⟩ := List.mem_map.mp hmem
    obtain ⟨id, hreg⟩ := mem_values.mp (List.mem_of_mem_filter hconn)
    exact hnone ns id conn hreg houtbox
  have hsend : ∀ ns id conn frame, Registered w ns id conn →
      ((send w.outboxes conn.outbox frame).2 o).queued = (w.outboxes o).queued := by
    intro ns id conn frame hreg
    have hne : o ≠ conn.outbox := fun h => hnone ns id conn hreg h.symm
    rw [((send_spec w.outboxes conn.outbox frame).2 o).2]
    simp [hne]
  cases a with
  | allocate ns =>
    have hne : o ≠ w.created := Nat.ne_of_lt ho
    simp [World.step, hne]
  | broadcast ns encoded =>
    cases encoded with
    | none => rfl
    | some frame =>
      simp only [World.step, WsServer.broadcastValue]
      rw [← filter_true (w.servers ns).values]
      exact hall ns (fun _ => true) frame
  | emitTo ns room encoded =>
    cases encoded with
    | none => rfl
    | some frame => exact hall ns (fun conn => room ∈ conn.rooms) frame
  | emit ns id encoded =>
    cases encoded with
    | none => rfl
    | some frame =>
      simp only [World.step, WsServer.emitValue]
      cases hlookup : (w.servers ns).conns.lookup id with
      | none => rfl
      | some conn => exact hsend ns id conn frame hlookup
  | reply ns id frame =>
    unfold World.step
    simp only
    cases hlookup : (w.servers ns).conns.lookup id with
    | none => rfl
    | some conn => exact hsend ns id conn frame hlookup
  | close outbox =>
    by_cases h : o = outbox
    · subst h
      simp [World.step]
    · simp [World.step, h]
  | _ => rfl

end Deliver

/-! ## What an emit returns -/

/-- The outboxes of a registry that have accepted a frame in the step. -/
def accepted (w : World N) (a : Action N) (ns : N) : Nat :=
  (w.servers ns).values.countP fun conn =>
    (w.outboxes conn.outbox).queued.length < ((w.step a).2.outboxes conn.outbox).queued.length

section Outcome

variable {w : World N} {ns : N}

/-- A connection of the registry accepts when its outbox is open and it is addressed. -/
theorem accepts_iff (hinv : Inv w) {id : ConnId} {conn : Conn} (hreg : Registered w ns id conn)
    (a : Action N) :
    (w.outboxes conn.outbox).queued.length < ((w.step a).2.outboxes conn.outbox).queued.length ↔
      (addressed ns id conn a).isSome = true ∧ (w.outboxes conn.outbox).isOpen = true := by
  rw [queued_step hinv hreg a, List.length_append]
  cases haddr : addressed ns id conn a with
  | none => simp
  | some frame =>
    by_cases hopen : (w.outboxes conn.outbox).isOpen = true
    · simp [hopen]
    · simp [hopen]

theorem count_sendAll (hinv : Inv w) (p : Conn → Bool) (frame : Frame) (a : Action N)
    (haddr : ∀ id conn, addressed ns id conn a = if p conn then some frame else none) :
    (sendAll frame ((w.servers ns).values.filter p) w.outboxes).1 = accepted w a ns := by
  rw [(sendAll_spec frame ((nodup_outboxes hinv ns).sublist (List.filter_sublist.map _))
    w.outboxes).1, List.countP_filter]
  refine List.countP_congr fun conn hconn => ?_
  obtain ⟨id, hreg⟩ := mem_values.mp hconn
  rw [decide_eq_true_iff, accepts_iff hinv hreg, haddr id conn]
  cases p conn with
  | true => simp
  | false => simp

/-- **A broadcast or room emit returns the number of outboxes that accepted it.** -/
theorem outcome_broadcast (hinv : Inv w) (encoded : Option Frame) :
    (w.step (.broadcast ns encoded)).1 = .count (accepted w (.broadcast ns encoded) ns) := by
  cases encoded with
  | none => simp [World.step, WsServer.broadcastValue, accepted]
  | some frame =>
    rw [← count_sendAll hinv (fun _ => true) frame _ fun id conn => by simp [addressed],
      filter_true]
    rfl

theorem outcome_emitTo (hinv : Inv w) (room : String) (encoded : Option Frame) :
    (w.step (.emitTo ns room encoded)).1 = .count (accepted w (.emitTo ns room encoded) ns) := by
  cases encoded with
  | none => simp [World.step, WsServer.emitToValue, accepted]
  | some frame =>
    rw [← count_sendAll hinv (fun conn => room ∈ conn.rooms) frame _ fun id conn => by
      simp [addressed]]
    rfl

/-- **An emit to an id returns whether an outbox accepted it.** -/
theorem outcome_emit (hinv : Inv w) (id : ConnId) (encoded : Option Frame) :
    (w.step (.emit ns id encoded)).1 =
      .flag (decide (0 < accepted w (.emit ns id encoded) ns)) := by
  have hpos : 0 < accepted w (.emit ns id encoded) ns ↔
      encoded.isSome = true ∧ ∃ conn, Registered w ns id conn ∧
        (w.outboxes conn.outbox).isOpen = true := by
    unfold accepted
    rw [List.countP_pos_iff]
    constructor
    · rintro ⟨conn, hconn, hgrew⟩
      obtain ⟨id', hreg⟩ := mem_values.mp hconn
      rw [decide_eq_true_iff, accepts_iff hinv hreg] at hgrew
      obtain ⟨haddr, hopen⟩ := hgrew
      unfold addressed at haddr
      by_cases hid : id = id'
      · subst hid
        exact ⟨by simpa using haddr, conn, hreg, hopen⟩
      · simp [hid] at haddr
    · rintro ⟨hencoded, conn, hreg, hopen⟩
      refine ⟨conn, mem_values.mpr ⟨id, hreg⟩, ?_⟩
      rw [decide_eq_true_iff, accepts_iff hinv hreg]
      exact ⟨by simpa [addressed] using hencoded, hopen⟩
  have hflag : ∀ b : Bool, (b = true ↔ 0 < accepted w (.emit ns id encoded) ns) →
      Outcome.flag b = .flag (decide (0 < accepted w (.emit ns id encoded) ns)) := by
    intro b hb
    rw [Bool.eq_iff_iff.mpr (hb.trans decide_eq_true_iff.symm)]
  refine hflag ((w.servers ns).emitValue id encoded w.outboxes).1 (Iff.trans ?_ hpos.symm)
  cases encoded with
  | none => simp [WsServer.emitValue]
  | some frame =>
    simp only [WsServer.emitValue]
    cases hlookup : (w.servers ns).conns.lookup id with
    | none => simp [Registered, hlookup]
    | some conn =>
      simp only [(send_spec w.outboxes conn.outbox frame).1]
      simp [Registered, hlookup]

end Outcome

/-! ## The contract -/

/-- The connection with this outbox was inserted and has not disconnected. -/
def InsertedSince (actions : List (Action N)) (ns : N) (id : ConnId) (outbox : Nat) : Prop :=
  ∃ pre post, actions = pre ++ .insert ns id outbox :: post ∧ .disconnect ns id ∉ post

/-- The connection with this outbox was inserted, later joined the room, and has not left it. -/
def JoinedSince (actions : List (Action N)) (ns : N) (id : ConnId) (outbox : Nat) (room : String) :
    Prop :=
  ∃ pre mid post, actions = pre ++ .insert ns id outbox :: (mid ++ .join ns id room :: post) ∧
    .leave ns id room ∉ post

/-- **What the registries do along a run.** The step `a` is taken in the state `after pre`. -/
structure Delivery (actions : List (Action N)) : Prop where
  /-- Two allocations of a registry return different ids. -/
  ids : ∀ pre ns mid post, actions = pre ++ .allocate ns :: (mid ++ .allocate ns :: post) →
    ((after pre).step (.allocate ns)).1 ≠
      ((after (pre ++ .allocate ns :: mid)).step (.allocate ns)).1
  /-- A connection is registered from its insertion to its disconnect. -/
  registered : ∀ pre post, actions = pre ++ post → ∀ ns id outbox,
    (∃ conn, Registered (after pre) ns id conn ∧ conn.outbox = outbox) ↔
      InsertedSince pre ns id outbox
  /-- A registered connection gets the frame addressed to it, once, iff its outbox is open. -/
  queued : ∀ pre a post, actions = pre ++ a :: post → ∀ ns id conn,
    Registered (after pre) ns id conn →
      ((after (pre ++ [a])).outboxes conn.outbox).queued =
        ((after pre).outboxes conn.outbox).queued ++
          if ((after pre).outboxes conn.outbox).isOpen then (addressed ns id conn a).toList else []
  /-- An outbox that no registered connection has gets nothing. -/
  unregistered : ∀ pre a post, actions = pre ++ a :: post → ∀ o, o < (after pre).created →
    (∀ ns id conn, Registered (after pre) ns id conn → conn.outbox ≠ o) →
      ((after (pre ++ [a])).outboxes o).queued = ((after pre).outboxes o).queued
  /-- After a connection's disconnect nothing is queued to it. -/
  gone : ∀ pre ns id post, actions = pre ++ .disconnect ns id :: post → ∀ conn,
    Registered (after pre) ns id conn →
      ((after actions).outboxes conn.outbox).queued = ((after pre).outboxes conn.outbox).queued
  /-- A connection is in exactly the rooms it has joined since its insertion and not left. -/
  rooms : ∀ pre post, actions = pre ++ post → ∀ ns id conn, Registered (after pre) ns id conn →
    ∀ room, room ∈ conn.rooms ↔ JoinedSince pre ns id conn.outbox room
  /-- An emit returns the number of outboxes that accepted it. -/
  broadcasts : ∀ pre ns encoded post, actions = pre ++ .broadcast ns encoded :: post →
    ((after pre).step (.broadcast ns encoded)).1 =
      .count (accepted (after pre) (.broadcast ns encoded) ns)
  roomEmits : ∀ pre ns room encoded post, actions = pre ++ .emitTo ns room encoded :: post →
    ((after pre).step (.emitTo ns room encoded)).1 =
      .count (accepted (after pre) (.emitTo ns room encoded) ns)
  emits : ∀ pre ns id encoded post, actions = pre ++ .emit ns id encoded :: post →
    ((after pre).step (.emit ns id encoded)).1 =
      .flag (decide (0 < accepted (after pre) (.emit ns id encoded) ns))
  /-- A step on one registry neither changes another nor reaches its connections. -/
  isolated : ∀ pre a post, actions = pre ++ a :: post → ∀ ns, a.namespace ≠ some ns →
    (after (pre ++ [a])).servers ns = (after pre).servers ns ∧
      ∀ id conn, Registered (after pre) ns id conn →
        ((after (pre ++ [a])).outboxes conn.outbox).queued =
          ((after pre).outboxes conn.outbox).queued

section Contract

variable {actions pre post : List (Action N)} {ns : N} {id : ConnId} {conn : Conn}

theorem allocations_append (ns : N) (pre post : List (Action N)) :
    allocations ns (pre ++ post) = allocations ns pre + allocations ns post :=
  List.countP_append

omit [DecidableEq N] in
theorem insertedSince_snoc {a : Action N} {o : Nat} :
    InsertedSince (pre ++ [a]) ns id o ↔
      (InsertedSince pre ns id o ∧ a ≠ .disconnect ns id) ∨ a = .insert ns id o := by
  constructor
  · rintro ⟨p, q, heq, hstays⟩
    cases q using List.reverseRecOn with
    | nil =>
      obtain ⟨rfl, ha⟩ := List.append_inj' heq rfl
      cases ha
      exact Or.inr rfl
    | append_singleton q c =>
      have hsplit : pre ++ [a] = (p ++ .insert ns id o :: q) ++ [c] := by
        rw [heq]
        simp
      obtain ⟨rfl, hc⟩ := List.append_inj' hsplit rfl
      cases hc
      rw [List.mem_append, List.mem_singleton, not_or] at hstays
      exact Or.inl ⟨⟨p, q, rfl, hstays.1⟩, Ne.symm hstays.2⟩
  · rintro (⟨⟨p, q, rfl, hstays⟩, hne⟩ | rfl)
    · refine ⟨p, q ++ [a], by simp, fun hmem => ?_⟩
      rcases List.mem_append.mp hmem with hmem | hmem
      · exact hstays hmem
      · exact hne (List.mem_singleton.mp hmem).symm
    · exact ⟨pre, [], rfl, List.not_mem_nil⟩

/-- **A connection is registered** from its insertion to its disconnect. -/
theorem registered_iff (hvalid : Valid actions)
    (hcount : ∀ ns', allocations ns' actions < 2 ^ 64) {o : Nat} :
    (∃ conn, Registered (after actions) ns id conn ∧ conn.outbox = o) ↔
      InsertedSince actions ns id o := by
  induction actions using List.reverseRecOn with
  | nil =>
    refine iff_of_false ?_ ?_
    · rintro ⟨conn, hreg, -⟩
      cases hreg
    · rintro ⟨p, q, heq, -⟩
      cases p <;> cases heq
  | append_singleton pre a ih =>
    have hpre : ∀ ns', allocations ns' pre < 2 ^ 64 := by
      intro ns'
      have h := hcount ns'
      rw [allocations_append] at h
      omega
    have ih := ih hvalid.append_left hpre
    rw [after_snoc, insertedSince_snoc, ← ih]
    constructor
    · rintro ⟨conn, hreg, rfl⟩
      rcases registered_step hreg with ⟨rfl, -⟩ | ⟨hne, old, hold, houtbox, -⟩
      · exact Or.inr rfl
      · exact Or.inl ⟨⟨old, hold, houtbox⟩, hne⟩
    · rintro (⟨⟨conn, hreg, rfl⟩, hne⟩ | rfl)
      · refine registered_of_step hreg hne fun o' heq => ?_
        -- its id is not between the two steps of a connect again
        have hconnecting := hvalid pre a [] rfl
        rw [heq] at hconnecting
        exact (inv_after hvalid.append_left hpre).pending ns id o' hconnecting conn hreg
      · exact ⟨⟨o, ∅⟩, registered_insert _ ns id o, rfl⟩

omit [DecidableEq N] in
theorem joinedSince_snoc {a : Action N} {o : Nat} {room : String} :
    JoinedSince (pre ++ [a]) ns id o room ↔
      (JoinedSince pre ns id o room ∧ a ≠ .leave ns id room) ∨
        a = .join ns id room ∧ ∃ p mid, pre = p ++ .insert ns id o :: mid := by
  constructor
  · rintro ⟨p, mid, q, heq, hleave⟩
    cases q using List.reverseRecOn with
    | nil =>
      have hsplit : pre ++ [a] = (p ++ .insert ns id o :: mid) ++ [.join ns id room] := by
        rw [heq]
        simp
      obtain ⟨rfl, ha⟩ := List.append_inj' hsplit rfl
      cases ha
      exact Or.inr ⟨rfl, p, mid, rfl⟩
    | append_singleton q c =>
      have hsplit : pre ++ [a] =
          (p ++ .insert ns id o :: (mid ++ .join ns id room :: q)) ++ [c] := by
        rw [heq]
        simp
      obtain ⟨rfl, hc⟩ := List.append_inj' hsplit rfl
      cases hc
      rw [List.mem_append, List.mem_singleton, not_or] at hleave
      exact Or.inl ⟨⟨p, mid, q, rfl, hleave.1⟩, Ne.symm hleave.2⟩
  · rintro (⟨⟨p, mid, q, rfl, hleave⟩, hne⟩ | ⟨rfl, p, mid, rfl⟩)
    · refine ⟨p, mid, q ++ [a], by simp, fun hmem => ?_⟩
      rcases List.mem_append.mp hmem with hmem | hmem
      · exact hleave hmem
      · exact hne (List.mem_singleton.mp hmem).symm
    · exact ⟨p, mid, [], by simp, List.not_mem_nil⟩

/-- An outbox is inserted once: its connection is not between the two steps again. -/
theorem not_connecting_of_inserted {o : Nat} (hinv : Inv (after pre))
    (hvalid : Valid (pre ++ .insert ns id o :: post)) :
    (ns, id, o) ∉ (after (pre ++ .insert ns id o :: post)).connecting ∧
      o < (after (pre ++ .insert ns id o :: post)).created := by
  induction post using List.reverseRecOn with
  | nil =>
    rw [after_snoc]
    refine ⟨fun hmem => ?_, lt_of_lt_of_le ?_ created_le_step⟩
    · rcases connecting_step hmem with ⟨-, hne⟩ | ⟨ns', heq, -⟩
      · exact hne rfl
      · cases heq
    · exact (hinv.below ns id o (Or.inl (hvalid pre _ [] rfl))).2
  | append_singleton post a ih =>
    have hsplit : pre ++ .insert ns id o :: (post ++ [a]) =
        (pre ++ .insert ns id o :: post) ++ [a] := by simp
    rw [hsplit] at hvalid ⊢
    obtain ⟨hout, hbelow⟩ := ih hvalid.append_left
    rw [after_snoc]
    refine ⟨fun hmem => ?_, lt_of_lt_of_le hbelow created_le_step⟩
    rcases connecting_step hmem with ⟨hold, -⟩ | ⟨ns', -, heq⟩
    · exact hout hold
    · have ho : o = (after (pre ++ .insert ns id o :: post)).created :=
        congrArg (fun c => c.2.2) heq
      rw [← ho] at hbelow
      exact lt_irrefl _ hbelow

/-- **The rooms of a registered connection** are those it has joined since its insertion and not
left. -/
theorem mem_rooms_iff (hvalid : Valid actions) (hcount : ∀ ns', allocations ns' actions < 2 ^ 64)
    (h : Registered (after actions) ns id conn) (room : String) :
    room ∈ conn.rooms ↔ JoinedSince actions ns id conn.outbox room := by
  induction actions using List.reverseRecOn generalizing conn with
  | nil => cases h
  | append_singleton pre a ih =>
    have hpre : ∀ p q, pre ++ [a] = p ++ q → ∀ ns', allocations ns' p < 2 ^ 64 := by
      intro p q heq ns'
      have h := hcount ns'
      rw [heq, allocations_append] at h
      omega
    rw [after_snoc] at h
    rw [joinedSince_snoc]
    rcases registered_step h with ⟨rfl, hempty⟩ | ⟨-, old, hold, houtbox, hrooms⟩
    · rw [hempty]
      refine iff_of_false (Finset.notMem_empty room) ?_
      rintro (⟨⟨p, mid, q, rfl, -⟩, -⟩ | ⟨heq, -⟩)
      -- inserted before: the second insertion was not enabled
      · have hinv := inv_after hvalid.append_left.append_left (hpre p _ (List.append_assoc _ _ _))
        exact (not_connecting_of_inserted hinv hvalid.append_left).1 (hvalid _ _ [] rfl)
      · cases heq
    · rw [hrooms, ih hvalid.append_left (hpre pre [a] rfl) hold, houtbox]
      refine or_congr_right ⟨fun ha => ⟨ha, ?_⟩, And.left⟩
      obtain ⟨p, mid, hsplit, -⟩ := (registered_iff hvalid.append_left (hpre pre [a] rfl)).mp
        ⟨old, hold, houtbox⟩
      exact ⟨p, mid, hsplit⟩

/-- After its disconnect, nobody holds the outbox of a connection, and nothing is queued to it. -/
theorem retired (hvalid : Valid (pre ++ .disconnect ns id :: post))
    (hcount : ∀ ns', allocations ns' (pre ++ .disconnect ns id :: post) < 2 ^ 64)
    (hreg : Registered (after pre) ns id conn) :
    (∀ ns' id', ¬ Holds (after (pre ++ .disconnect ns id :: post)) ns' id' conn.outbox) ∧
      conn.outbox < (after (pre ++ .disconnect ns id :: post)).created ∧
      ((after (pre ++ .disconnect ns id :: post)).outboxes conn.outbox).queued =
        ((after pre).outboxes conn.outbox).queued := by
  have hpast : ∀ l l' : List (Action N), pre ++ .disconnect ns id :: post = l ++ l' →
      Inv (after l) := by
    intro l l' heq
    rw [heq] at hvalid hcount
    refine inv_after hvalid.append_left fun ns' => ?_
    have h := hcount ns'
    rw [allocations_append] at h
    omega
  induction post using List.reverseRecOn with
  | nil =>
    have hinv := hpast pre _ rfl
    have henabled := hvalid pre (.disconnect ns id) [] rfl
    rw [after_snoc]
    refine ⟨fun ns' id' hholds => ?_, ?_, ?_⟩
    · rcases holds_step henabled hholds with hold | ⟨heq, -⟩
      · obtain ⟨rfl, rfl⟩ := hinv.outbox_unique ns' id' ns id conn.outbox hold
          (Or.inr ⟨conn, hreg, rfl⟩)
        rcases hholds with hconnecting | ⟨conn', hreg', -⟩
        · rcases connecting_step hconnecting with ⟨h, -⟩ | ⟨ns'', heq, -⟩
          · exact hinv.pending ns' id' conn.outbox h conn hreg
          · cases heq
        · exact not_registered_disconnect (after pre) ns' id' conn' hreg'
      · cases heq
    · exact (hinv.below ns id conn.outbox (Or.inr ⟨conn, hreg, rfl⟩)).2
    · have hqueued := queued_step hinv hreg (.disconnect ns id)
      rw [hqueued]
      simp [addressed]
  | append_singleton post a ih =>
    have hsplit : pre ++ .disconnect ns id :: (post ++ [a]) =
        (pre ++ .disconnect ns id :: post) ++ [a] := by simp
    have hinv := hpast _ _ hsplit
    have henabled : (after (pre ++ .disconnect ns id :: post)).Enabled a :=
      hvalid _ a [] (by simp)
    rw [hsplit] at hvalid hcount
    obtain ⟨hunheld, hbelow, hqueued⟩ := ih hvalid.append_left (fun ns' => by
      have h := hcount ns'
      rw [allocations_append] at h
      omega) (fun l l' heq => hpast l (l' ++ [a]) (by rw [hsplit, heq]; simp))
    rw [hsplit, after_snoc]
    refine ⟨fun ns' id' hholds => ?_, lt_of_lt_of_le hbelow created_le_step, ?_⟩
    · rcases holds_step henabled hholds with hold | ⟨-, -, ho⟩
      · exact hunheld ns' id' hold
      · rw [ho] at hbelow
        exact absurd hbelow (lt_irrefl _)
    · rw [queued_step_of_unregistered hinv hbelow (fun ns' id' conn' hreg' houtbox =>
        hunheld ns' id' (Or.inr ⟨conn', hreg', houtbox⟩)) a]
      exact hqueued

end Contract

/-- **Delivery by the registries.** In every interleaving of the steps of any connections and
services, with fewer than `2 ^ 64` connects to a registry: ids are never reused; a frame is queued
to a connection by an emit exactly when it is registered, addressed and open, once and in the order
of the emits; nothing is queued after a disconnect; rooms are the connection's own; an emit returns
how many outboxes accepted; and namespaces do not touch each other. -/
theorem registry_delivery (actions : List (Action N)) (hvalid : Valid actions)
    (hcount : ∀ ns, allocations ns actions < 2 ^ 64) : Delivery actions := by
  have hpast : ∀ pre post, actions = pre ++ post →
      Inv (after pre) ∧ ∀ ns, allocations ns pre < 2 ^ 64 := by
    rintro pre post rfl
    have hpre : ∀ ns, allocations ns pre < 2 ^ 64 := by
      intro ns
      have h := hcount ns
      rw [allocations_append] at h
      omega
    exact ⟨inv_after hvalid.append_left hpre, hpre⟩
  refine ⟨?_, ?_, ?_, ?_, ?_, ?_, ?_, ?_, ?_, ?_⟩
  · intro pre ns mid post heq hsame
    have hfirst := (hpast pre _ heq).2 ns
    have hsecond := (hpast (pre ++ .allocate ns :: mid) (.allocate ns :: post)
      (by rw [heq]; simp)).2 ns
    injection hsame with hid
    have hid' : ((after pre).servers ns).next =
        ((after (pre ++ .allocate ns :: mid)).servers ns).next := hid
    rw [next_after hfirst, next_after hsecond, allocations_append] at hid'
    have hone : 0 < allocations ns (.allocate ns :: mid) :=
      List.countP_pos_iff.mpr ⟨.allocate ns, List.mem_cons_self, by simp [Action.allocates]⟩
    omega
  · rintro pre post rfl ns id outbox
    exact registered_iff hvalid.append_left (hpast pre post rfl).2
  · intro pre a post heq ns id conn hreg
    rw [after_snoc]
    exact queued_step (hpast pre _ heq).1 hreg a
  · intro pre a post heq o ho hnone
    rw [after_snoc]
    exact queued_step_of_unregistered (hpast pre _ heq).1 ho hnone a
  · rintro pre ns id post rfl conn hreg
    exact (retired hvalid hcount hreg).2.2
  · rintro pre post rfl ns id conn hreg room
    exact mem_rooms_iff hvalid.append_left (hpast pre post rfl).2 hreg room
  · intro pre ns encoded post heq
    exact outcome_broadcast (hpast pre _ heq).1 encoded
  · intro pre ns room encoded post heq
    exact outcome_emitTo (hpast pre _ heq).1 room encoded
  · intro pre ns id encoded post heq
    exact outcome_emit (hpast pre _ heq).1 id encoded
  · intro pre a post heq ns hns
    rw [after_snoc]
    refine ⟨servers_step_of_ne hns, fun id conn hreg => ?_⟩
    rw [queued_step (hpast pre _ heq).1 hreg a]
    simp [addressed_of_ne hns]

/-! ## A chat with two namespaces -/

inductive ChatNs where
  | global
  | admin
deriving DecidableEq

/-- Two clients connect to the global namespace and one to the other; the first joins the lobby. -/
def connects : List (Action ChatNs) :=
  [.allocate .global, .allocate .admin, .allocate .global, .insert .global 0 0, .insert .admin 0 1,
    .insert .global 1 2, .join .global 0 "lobby"]

/-- Then the lobby is sent a greeting. -/
def greeting : List (Action ChatNs) := connects ++ [.emitTo .global "lobby" (some "hello")]

theorem valid_greeting : Valid greeting := by
  have hnil : Valid ([] : List (Action ChatNs)) := fun pre a post h => by
    cases pre <;> cases h
  have hone : Valid [Action.allocate ChatNs.global] := hnil.snoc trivial
  have htwo : Valid [Action.allocate ChatNs.global, .allocate .admin] := hone.snoc trivial
  have hthree : Valid [Action.allocate ChatNs.global, .allocate .admin, .allocate .global] :=
    htwo.snoc trivial
  have hfirst : Valid [Action.allocate ChatNs.global, .allocate .admin, .allocate .global,
      .insert .global 0 0] := hthree.snoc (by decide)
  have hadmin : Valid [Action.allocate ChatNs.global, .allocate .admin, .allocate .global,
      .insert .global 0 0, .insert .admin 0 1] := hfirst.snoc (by decide)
  have hsecond : Valid [Action.allocate ChatNs.global, .allocate .admin, .allocate .global,
      .insert .global 0 0, .insert .admin 0 1, .insert .global 1 2] := hadmin.snoc (by decide)
  have hconnects : Valid connects := hsecond.snoc trivial
  exact hconnects.snoc trivial

/-- The greeting reaches the client of the lobby, neither the other one of its namespace nor that of
the other namespace. -/
theorem greeting_delivered :
    JoinedSince connects .global 0 0 "lobby" ∧ ((after greeting).outboxes 0).queued = ["hello"] ∧
      ((after greeting).outboxes 2).queued = [] ∧ ((after greeting).outboxes 1).queued = [] := by
  have h := registry_delivery greeting valid_greeting (by
    rintro (_ | _) <;> decide)
  refine ⟨(h.rooms connects [.emitTo .global "lobby" (some "hello")] rfl .global 0 ⟨0, {"lobby"}⟩
      rfl "lobby").mp (by decide), ?_⟩
  exact ⟨h.queued connects (.emitTo .global "lobby" (some "hello")) [] rfl .global 0
      ⟨0, {"lobby"}⟩ rfl,
    h.queued connects (.emitTo .global "lobby" (some "hello")) [] rfl .global 1 ⟨2, ∅⟩ rfl,
    (h.isolated connects (.emitTo .global "lobby" (some "hello")) [] rfl .admin nofun).2 0 ⟨1, ∅⟩
      rfl⟩

end Nestrs.Ws
