import Nestrs.Ws.Connection
import Nestrs.Lib.Except
import Mathlib.Data.List.Basic
import Mathlib.Logic.Function.Basic

/-!
# Messages and their guards

Model of the `#[messages]` macro (`crates/nestrs-ws-macros/src/messages.rs`), of `MessageGuardTable`
(`crates/nestrs-ws/src/guard.rs`) and of what `handle_text` does with a text frame
(`crates/nestrs-ws/src/gateway.rs`).

* From one list of methods the macro builds two things: the arms of the `match` in `dispatch`, one
  for each `#[subscribe_message]` method, and the inserts that fill the guard table, one for each
  method that has guards. The first arm of an event is the one that runs; the last insert of an
  event is the one that stays.
* A method is accepted with at most one `#[use_guards]`, one payload and one `&WsClient`. Nothing
  rejects an event that is subscribed to twice: the later arm is unreachable, which is a warning.
* What guards, methods and the bridge do is the application's: they read and change a state `σ`
  and return anything. The bridge (`SocketContext::around`) may run the dispatch it is given or not.

The outcome of a message records the guards that were evaluated, with their answers, and the method
that was called.

Results:
* `table_eq`: the guards that the table has for an event;
* `handleText_run`: the connection task of `Connection.lean` goes through such a message;
* **`messages_protected_iff`**: guards protect their handler exactly when, for each event, the last
  method with guards has those of the first one among its own, in order.
-/

namespace Nestrs.Ws.Messages

open Nestrs.Lib

variable {G N V σ : Type}

/-! ## The macro -/

/-- A parameter after `&self`: the payload, or the client. -/
inductive Param where
  | owned
  | reference
deriving DecidableEq, Repr

/-- A `#[subscribe_message]` method, with the `#[use_guards]` attributes beside it. -/
structure HandlerMethod (G : Type) where
  name : String
  event : String
  useGuards : List (List G)
  params : List Param
  returnsUnit : Bool
deriving DecidableEq, Repr

/-- An arm of the `match` in `dispatch`. -/
structure Arm where
  event : String
  method : String
  takesPayload : Bool
  returnsUnit : Bool
deriving DecidableEq, Repr

/-- `take_use_attr`. -/
def takeUseAttr : List (List G) → Except String (List G)
  | [] => .ok []
  | [guards] => .ok guards
  | _ => .error "at most one `#[use_guards(...)]` is allowed; list every entry in it"

/-- The loop over the parameters: whether there is a payload. -/
def classify (payload client : Bool) : List Param → Except String Bool
  | [] => .ok payload
  | .reference :: params =>
    if client then
      .error "a #[subscribe_message] handler takes at most one `&WsClient` parameter"
    else classify payload true params
  | .owned :: params =>
    if payload then
      .error ("a #[subscribe_message] handler takes at most one payload parameter " ++
        "(deserialized from the message's `data`)")
    else classify true client params

/-- The loop over the methods: the arms, and the inserts of the guard table. -/
def messages : List (HandlerMethod G) → Except String (List Arm × List (String × List G))
  | [] => .ok ([], [])
  | method :: methods => do
    let guards ← takeUseAttr method.useGuards
    let takesPayload ← classify false false method.params
    let (arms, inserts) ← messages methods
    .ok (⟨method.event, method.name, takesPayload, method.returnsUnit⟩ :: arms,
      if guards.isEmpty then inserts else (method.event, guards) :: inserts)

/-- The guards declared on a method. -/
def HandlerMethod.guards (method : HandlerMethod G) : List G := method.useGuards.flatten

/-- A gateway the macro accepts. -/
structure Gateway (G : Type) where
  methods : List (HandlerMethod G)
  arms : List Arm
  inserts : List (String × List G)
  emitted : messages methods = .ok (arms, inserts)
  /-- The methods of an impl block have different names. -/
  distinct : (methods.map HandlerMethod.name).Nodup

/-! ## The guard table -/

/-- `MessageGuardTable`. -/
def MessageGuardTable (G : Type) : Type := String → Option (List G)

namespace MessageGuardTable

/-- `MessageGuardTable::new`. -/
def new : MessageGuardTable G := fun _ => none

/-- `MessageGuardTable::insert`. -/
def insert (table : MessageGuardTable G) (event : String) (guards : List G) :
    MessageGuardTable G :=
  Function.update table event (some guards)

end MessageGuardTable

/-- The table that the mount closure fills. -/
def Gateway.table (gw : Gateway G) : MessageGuardTable G :=
  gw.inserts.foldl (fun table entry => table.insert entry.1 entry.2) .new

/-! ## A message -/

/-- The code of an application: guards, the payload type and the body of a method (with what its
return value serializes to). -/
structure UserCode (G V σ : Type) where
  canActivate : G → WsEnvelope V → σ → Except String Unit × σ
  fromValue : String → V → Except String V
  call : String → Option V → σ → Except String V × σ

/-- What a bridge does with a dispatch. -/
inductive Around (V σ : Type) where
  | answers (reply : WsReply V) (s : σ)
  | runs (s : σ) (after : WsReply V → σ → WsReply V × σ)

/-- `SocketContext::around`, with what it captured. -/
abbrev SocketContext (V σ : Type) : Type := σ → Around V σ

/-- The outcome of a message. -/
structure Outcome (G σ : Type) where
  checked : List (G × Except String Unit)
  called : List String
  reply : Option Frame
  state : σ

/-- The loop of `MessageGuardTable::check`: the guards evaluated, the verdict. -/
def checkGuards (user : UserCode G V σ) (envelope : WsEnvelope V) :
    List G → σ → List (G × Except String Unit) × Except String Unit × σ
  | [], s => ([], .ok (), s)
  | guard :: guards, s =>
    match user.canActivate guard envelope s with
    | (.ok (), s) =>
      let (checked, verdict, s) := checkGuards user envelope guards s
      ((guard, .ok ()) :: checked, verdict, s)
    | (.error reason, s) => ([(guard, .error reason)], .error reason, s)

/-- `MessageGuardTable::check`. -/
def MessageGuardTable.check (table : MessageGuardTable G) (user : UserCode G V σ)
    (envelope : WsEnvelope V) (s : σ) : List (G × Except String Unit) × Except String Unit × σ :=
  match table envelope.event with
  | none => ([], .ok (), s)
  | some guards => checkGuards user envelope guards s

/-- The call in an arm, and the reply. -/
def Arm.run (arm : Arm) (user : UserCode G V σ) (payload : Option V) (s : σ) :
    List String × WsReply V × σ :=
  let (ret, s) := user.call arm.method payload s
  if arm.returnsUnit then ([arm.method], .none, s)
  else match ret with
    | .ok data => ([arm.method], .reply data, s)
    | .error err => ([arm.method], .error ("failed to serialize reply: " ++ err), s)

/-- `Gateway::dispatch`. -/
def dispatch (arms : List Arm) (user : UserCode G V σ) (envelope : WsEnvelope V) (s : σ) :
    List String × WsReply V × σ :=
  match arms.find? fun arm => arm.event = envelope.event with
  | none => ([], .error ("unknown event `" ++ envelope.event ++ "`"), s)
  | some arm =>
    if arm.takesPayload then
      match user.fromValue arm.method envelope.data with
      | .ok payload => arm.run user (some payload) s
      | .error err => ([], .error ("invalid payload for `" ++ arm.event ++ "`: " ++ err), s)
    else arm.run user none s

/-- The dispatch, in the bridge if there is one. -/
def dispatchIn (ambient : Option (SocketContext V σ)) (arms : List Arm) (user : UserCode G V σ)
    (envelope : WsEnvelope V) (s : σ) : List String × WsReply V × σ :=
  match ambient with
  | none => dispatch arms user envelope s
  | some around =>
    match around s with
    | .answers reply s => ([], reply, s)
    | .runs s after =>
      let (called, reply, s) := dispatch arms user envelope s
      let (reply, s) := after reply s
      (called, reply, s)

/-- The endpoint that the gateway is mounted as. -/
def Gateway.endpoint (gw : Gateway G) (server : N) (ctx : Bool) (json : Json V) :
    GatewayEndpoint N V where
  server := server
  guards := fun event => ((gw.table event).getD []).length
  ctx := ctx
  json := json

/-- The frame of a reply. -/
def render (e : GatewayEndpoint N V) (event : String) : WsReply V → Option Frame
  | .reply data => e.json.toString ⟨event, data⟩
  | .none => none
  | .error message => some (e.errorFrame event message)

/-- `handle_text`. -/
def handleText (gw : Gateway G) (e : GatewayEndpoint N V) (user : UserCode G V σ)
    (ambient : Option (SocketContext V σ)) (text : String) (s : σ) : Outcome G σ :=
  match e.json.fromStr text with
  | .error err => ⟨[], [], some (e.errorFrame "error" ("invalid envelope: " ++ err)), s⟩
  | .ok envelope =>
    let (checked, verdict, s) := gw.table.check user envelope s
    match verdict with
    | .error reason => ⟨checked, [], some (e.errorFrame envelope.event reason), s⟩
    | .ok () =>
      let (called, reply, s) := dispatchIn ambient gw.arms user envelope s
      ⟨checked, called, render e envelope.event reply, s⟩

/-! ## What the macro emits -/

theorem takeUseAttr_ok {useGuards : List (List G)} {guards : List G}
    (h : takeUseAttr useGuards = .ok guards) : guards = useGuards.flatten := by
  match useGuards, h with
  | [], h =>
    cases h
    rfl
  | [only], h =>
    cases h
    exact (List.flatten_singleton).symm

/-- The arms are those of the methods, in order, and the inserts those of the methods with
guards. -/
theorem messages_ok {methods : List (HandlerMethod G)} {arms : List Arm}
    {inserts : List (String × List G)} (h : messages methods = .ok (arms, inserts)) :
    arms.map (fun arm => (arm.event, arm.method)) =
        methods.map (fun method => (method.event, method.name)) ∧
      inserts = (methods.filter fun method => !method.guards.isEmpty).map
        fun method => (method.event, method.guards) := by
  induction methods generalizing arms inserts with
  | nil =>
    cases h
    exact ⟨rfl, rfl⟩
  | cons method methods ih =>
    unfold messages at h
    obtain ⟨guards, hguards, h⟩ := bind_eq_ok.mp h
    obtain ⟨takesPayload, -, h⟩ := bind_eq_ok.mp h
    obtain ⟨⟨arms', inserts'⟩, hrest, h⟩ := bind_eq_ok.mp h
    obtain ⟨harms, hinserts⟩ := ih hrest
    have hown : guards = method.guards := takeUseAttr_ok hguards
    cases h
    refine ⟨?_, ?_⟩
    · rw [List.map_cons, List.map_cons, harms]
    · rw [hinserts, hown]
      cases hempty : method.guards.isEmpty with
      | true => rw [if_pos rfl, List.filter_cons_of_neg (by simp [hempty])]
      | false =>
        rw [if_neg Bool.false_ne_true, List.filter_cons_of_pos (by simp [hempty]), List.map_cons]

theorem insert_self (table : MessageGuardTable G) (event : String) (guards : List G) :
    table.insert event guards event = some guards :=
  Function.update_self event _ table

theorem insert_of_ne (table : MessageGuardTable G) {event other : String} (guards : List G)
    (h : other ≠ event) : table.insert event guards other = table other :=
  Function.update_of_ne h _ table

/-- Of several inserts for an event the last one stays. -/
theorem foldl_insert (inserts : List (String × List G)) (table : MessageGuardTable G)
    (event : String) :
    inserts.foldl (fun table entry => table.insert entry.1 entry.2) table event =
      ((inserts.reverse.find? fun entry => entry.1 = event).map Prod.snd).or (table event) := by
  induction inserts generalizing table with
  | nil => rfl
  | cons entry inserts ih =>
    rw [List.foldl_cons, ih, List.reverse_cons, List.find?_append]
    cases hfind : inserts.reverse.find? fun entry => entry.1 = event with
    | some later => rfl
    | none =>
      by_cases hevent : entry.1 = event
      · subst hevent
        simp [insert_self]
      · rw [insert_of_ne table entry.2 (Ne.symm hevent)]
        simp [hevent]

/-- The last method of an event that has guards. -/
def Gateway.lastGuarded (gw : Gateway G) (event : String) : Option (HandlerMethod G) :=
  gw.methods.reverse.find? fun method => method.event = event ∧ method.guards ≠ []

/-- The first method of an event. -/
def Gateway.first (gw : Gateway G) (event : String) : Option (HandlerMethod G) :=
  gw.methods.find? fun method => method.event = event

/-- The table has the guards of the last method that has any. -/
theorem table_eq (gw : Gateway G) (event : String) :
    gw.table event = (gw.lastGuarded event).map HandlerMethod.guards := by
  unfold Gateway.table Gateway.lastGuarded
  rw [foldl_insert, (messages_ok gw.emitted).2, ← List.map_reverse, ← List.filter_reverse,
    List.find?_map, List.find?_filter, Option.map_map]
  have hnew : (MessageGuardTable.new event : Option (List G)) = none := rfl
  have hguarded : (fun method : HandlerMethod G => decide ((!method.guards.isEmpty) = true ∧
      ((fun entry : String × List G => decide (entry.1 = event)) ∘
        fun method : HandlerMethod G => (method.event, method.guards)) method = true)) =
      fun method => decide (method.event = event ∧ method.guards ≠ []) := by
    funext method
    simp [and_comm]
  rw [hnew, Option.or_none, hguarded]
  rfl

/-- The arm that runs is that of the first method. -/
theorem find_arm (gw : Gateway G) (event : String) :
    (gw.arms.find? fun arm => arm.event = event).map Arm.method =
      (gw.first event).map HandlerMethod.name := by
  have hpairs := congrArg (fun pairs => (pairs.find? fun pair => pair.1 = event).map Prod.snd)
    (messages_ok gw.emitted).1
  simp only [List.find?_map, Option.map_map] at hpairs
  exact hpairs

/-! ## What a message does -/

/-- These guards were evaluated, in this order, and returned `Ok`. -/
def passing (guards : List G) : List (G × Except String Unit) :=
  guards.map fun guard => (guard, .ok ())

/-- The guards of a check have all let the message pass, or one of them was the last. -/
theorem checkGuards_cases (user : UserCode G V σ) (envelope : WsEnvelope V) (guards : List G)
    (s : σ) :
    ((checkGuards user envelope guards s).2.1 = .ok () ∧
      (checkGuards user envelope guards s).1 = passing guards) ∨
    ∃ passed guard reason, (checkGuards user envelope guards s).2.1 = .error reason ∧
      (checkGuards user envelope guards s).1 = passing passed ++ [(guard, .error reason)] := by
  induction guards generalizing s with
  | nil => exact Or.inl ⟨rfl, rfl⟩
  | cons guard guards ih =>
    unfold checkGuards
    rcases user.canActivate guard envelope s with ⟨(reason | u), s'⟩
    · exact Or.inr ⟨[], guard, reason, rfl, rfl⟩
    · rcases ih s' with ⟨hverdict, hchecked⟩ | ⟨passed, last, reason, hverdict, hchecked⟩
      · exact Or.inl ⟨hverdict, congrArg ((guard, .ok ()) :: ·) hchecked⟩
      · exact Or.inr ⟨guard :: passed, last, reason, hverdict,
          congrArg ((guard, .ok ()) :: ·) hchecked⟩

/-- The guards the table has for an event; none if it has no entry. -/
def Gateway.tableGuards (gw : Gateway G) (event : String) : List G := (gw.table event).getD []

theorem check_eq (gw : Gateway G) (user : UserCode G V σ) (envelope : WsEnvelope V) (s : σ) :
    gw.table.check user envelope s =
      checkGuards user envelope (gw.tableGuards envelope.event) s := by
  unfold MessageGuardTable.check Gateway.tableGuards
  cases gw.table envelope.event with
  | none => rfl
  | some guards => rfl

theorem run_called (arm : Arm) (user : UserCode G V σ) (payload : Option V) (s : σ) :
    (arm.run user payload s).1 = [arm.method] := by
  unfold Arm.run
  rcases user.call arm.method payload s with ⟨ret, s'⟩
  cases hunit : arm.returnsUnit with
  | true => rfl
  | false =>
    cases ret with
    | ok data => rfl
    | error err => rfl

/-- Only the first method of the event is ever called. -/
theorem dispatch_called (gw : Gateway G) (user : UserCode G V σ) (envelope : WsEnvelope V) (s : σ)
    {name : String} (h : name ∈ (dispatch gw.arms user envelope s).1) :
    (gw.first envelope.event).map HandlerMethod.name = some name := by
  rw [← find_arm]
  unfold dispatch at h
  cases harm : gw.arms.find? fun arm => arm.event = envelope.event with
  | none =>
    rw [harm] at h
    cases h
  | some arm =>
    rw [harm] at h
    simp only at h
    split at h
    · split at h
      · rw [run_called, List.mem_singleton] at h
        rw [h]
        rfl
      · cases h
    · rw [run_called, List.mem_singleton] at h
      rw [h]
      rfl

theorem dispatchIn_called (gw : Gateway G) (ambient : Option (SocketContext V σ))
    (user : UserCode G V σ) (envelope : WsEnvelope V) (s : σ) {name : String}
    (h : name ∈ (dispatchIn ambient gw.arms user envelope s).1) :
    (gw.first envelope.event).map HandlerMethod.name = some name := by
  unfold dispatchIn at h
  cases ambient with
  | none => exact dispatch_called gw user envelope s h
  | some around =>
    cases haround : around s with
    | answers reply s' =>
      simp only [haround] at h
      cases h
    | runs s' after =>
      simp only [haround] at h
      exact dispatch_called gw user envelope s' h

/-- The ways a message can go. -/
theorem handleText_cases (gw : Gateway G) (e : GatewayEndpoint N V) (user : UserCode G V σ)
    (ambient : Option (SocketContext V σ)) (text : String) (s : σ) :
    ((handleText gw e user ambient text s).checked = [] ∧
      (handleText gw e user ambient text s).called = []) ∨
    ∃ envelope, e.json.fromStr text = .ok envelope ∧
      ((∃ passed guard reason s', handleText gw e user ambient text s =
          ⟨passing passed ++ [(guard, .error reason)], [],
            some (e.errorFrame envelope.event reason), s'⟩) ∨
        ∃ called reply s', handleText gw e user ambient text s =
          ⟨passing (gw.tableGuards envelope.event), called, render e envelope.event reply, s'⟩ ∧
          ∀ name ∈ called, (gw.first envelope.event).map HandlerMethod.name = some name) := by
  unfold handleText
  cases htext : e.json.fromStr text with
  | error err => exact Or.inl ⟨rfl, rfl⟩
  | ok envelope =>
    refine Or.inr ⟨envelope, rfl, ?_⟩
    simp only [check_eq]
    rcases hcheck : checkGuards user envelope (gw.tableGuards envelope.event) s with
      ⟨checked, verdict, s'⟩
    have hcases := checkGuards_cases user envelope (gw.tableGuards envelope.event) s
    rw [hcheck] at hcases
    rcases hcases with ⟨rfl, rfl⟩ | ⟨passed, guard, reason, rfl, rfl⟩
    · exact Or.inr ⟨_, _, _, rfl, fun name => dispatchIn_called gw ambient user envelope s'⟩
    · exact Or.inl ⟨passed, guard, reason, s', rfl⟩

/-! ## The message in the connection task -/

/-- Where the task is after `handle_text`. -/
def resting : Option Frame → Pc V
  | some frame => .replying frame
  | none => .reading

theorem rendered_eq (e : GatewayEndpoint N V) (event : String) (reply : WsReply V) :
    e.rendered event reply = resting (render e event reply) := by
  cases reply with
  | reply data =>
    unfold GatewayEndpoint.rendered render
    cases e.json.toString ⟨event, data⟩ with
    | some frame => rfl
    | none => rfl
  | none => rfl
  | error message => rfl

/-- The answer of a guard that a label stands for. -/
def answer : Label N V → Option (Except String Unit)
  | .guarded result => some result
  | _ => none

/-- The task goes through the guards of a message. -/
theorem checkGuards_run (e : GatewayEndpoint N V) (isOpen : Bool) (user : UserCode G V σ)
    (envelope : WsEnvelope V) (guards : List G) (s : σ) :
    ((checkGuards user envelope guards s).1.map fun c => (.guarded c.2 : Label N V)).foldlM
        (e.next isOpen) (.guarding envelope guards.length) =
      some (match (checkGuards user envelope guards s).2.1 with
        | .ok () => .guarding envelope 0
        | .error reason => .replying (e.errorFrame envelope.event reason)) := by
  induction guards generalizing s with
  | nil => rfl
  | cons guard guards ih =>
    unfold checkGuards
    rcases user.canActivate guard envelope s with ⟨(reason | u), s'⟩
    · rfl
    · exact ih s'

/-- The task goes from the last guard to the reply. -/
theorem dispatchIn_run (e : GatewayEndpoint N V) (isOpen : Bool)
    (ambient : Option (SocketContext V σ)) (hctx : e.ctx = ambient.isSome) (arms : List Arm)
    (user : UserCode G V σ) (envelope : WsEnvelope V) (s : σ) :
    ∃ labels : List (Label N V), labels.filterMap answer = [] ∧
      labels.foldlM (e.next isOpen) (.guarding envelope 0) =
        some (resting (render e envelope.event
          (dispatchIn ambient arms user envelope s).2.1)) := by
  unfold dispatchIn
  cases ambient with
  | none =>
    refine ⟨[.dispatch, .replies (dispatch arms user envelope s).2.1], rfl, ?_⟩
    simp [GatewayEndpoint.next, hctx, rendered_eq]
  | some around =>
    cases haround : around s with
    | answers reply s' =>
      refine ⟨[.around, .replies reply], rfl, ?_⟩
      simp [GatewayEndpoint.next, hctx, haround, rendered_eq]
    | runs s' after =>
      refine ⟨[.around, .dispatch, .replies (dispatch arms user envelope s').2.1,
        .replies (after (dispatch arms user envelope s').2.1
          (dispatch arms user envelope s').2.2).1], rfl, ?_⟩
      simp [GatewayEndpoint.next, hctx, haround, rendered_eq]

/-- **A message in the connection task.** What `handle_text` does is a run of the task from one
`stream.next()` to the reply, or to the next one: its guards answer as they were evaluated. -/
theorem handleText_run (gw : Gateway G) (server : N) (json : Json V) (isOpen : Bool)
    (user : UserCode G V σ) (ambient : Option (SocketContext V σ)) (text : String) (s : σ) :
    ∃ labels : List (Label N V),
      labels.filterMap answer = (handleText gw (gw.endpoint server ambient.isSome json) user
        ambient text s).checked.map Prod.snd ∧
      (.read (.text text) :: labels).foldlM
          ((gw.endpoint server ambient.isSome json).next isOpen) .reading =
        some (resting (handleText gw (gw.endpoint server ambient.isSome json) user
          ambient text s).reply) := by
  generalize he : gw.endpoint server ambient.isSome json = e
  have hguards : ∀ event, e.guards event = (gw.tableGuards event).length := by
    intro event
    rw [← he]
    rfl
  have hctx : e.ctx = ambient.isSome := by
    rw [← he]
    rfl
  suffices h : ∃ labels : List (Label N V),
      labels.filterMap answer = (handleText gw e user ambient text s).checked.map Prod.snd ∧
      labels.foldlM (e.next isOpen) (e.received (.text text)) =
        some (resting (handleText gw e user ambient text s).reply) from h
  unfold handleText GatewayEndpoint.received
  cases htext : e.json.fromStr text with
  | error err =>
    refine ⟨[], rfl, ?_⟩
    simp only [htext]
    rfl
  | ok envelope =>
    simp only [htext, check_eq, hguards]
    have hguarding := checkGuards_run e isOpen user envelope (gw.tableGuards envelope.event) s
    generalize checkGuards user envelope (gw.tableGuards envelope.event) s = check at hguarding ⊢
    obtain ⟨checked, verdict, s'⟩ := check
    have hanswers : (checked.map fun c => (.guarded c.2 : Label N V)).filterMap answer =
        checked.map Prod.snd := by
      rw [List.filterMap_map]
      exact congrFun List.filterMap_eq_map checked
    cases verdict with
    | error reason => exact ⟨_, hanswers, hguarding⟩
    | ok u =>
      obtain ⟨labels, hnone, hrun⟩ := dispatchIn_run e isOpen ambient hctx gw.arms user envelope s'
      refine ⟨(checked.map fun c => (.guarded c.2 : Label N V)) ++ labels, ?_, ?_⟩
      · rw [List.filterMap_append, hanswers, hnone, List.append_nil]
      · rw [List.foldlM_append, hguarding]
        exact hrun

/-! ## Protection -/

/-- Guards protect their handler in this outcome: a method that was called had all its guards
evaluated, in their order, and they returned `Ok`; and if a guard rejected, nothing was called and
the reply is an error frame under the event's name. -/
def Protected (gw : Gateway G) (e : GatewayEndpoint N V) (text : String) (outcome : Outcome G σ) :
    Prop :=
  (∀ method ∈ gw.methods, method.name ∈ outcome.called →
    (passing method.guards).Sublist outcome.checked) ∧
  ∀ guard reason, (guard, .error reason) ∈ outcome.checked → outcome.called = [] ∧
    ∃ envelope, e.json.fromStr text = .ok envelope ∧
      outcome.reply = some (e.errorFrame envelope.event reason)

/-- For each event the last method with guards has those of the first one among its own, in their
order. -/
def GuardsKept (gw : Gateway G) : Prop :=
  ∀ event first last, gw.first event = some first → gw.lastGuarded event = some last →
    first.guards.Sublist last.guards

/-- The guards in the table include those of the method that runs. -/
theorem sublist_tableGuards {gw : Gateway G} (hkept : GuardsKept gw) {event : String}
    {first : HandlerMethod G} (hfirst : gw.first event = some first) :
    first.guards.Sublist (gw.tableGuards event) := by
  unfold Gateway.tableGuards
  rw [table_eq]
  cases hlast : gw.lastGuarded event with
  | some last => exact hkept event first last hfirst hlast
  | none =>
    have hevent : first.event = event := of_decide_eq_true (List.find?_some hfirst :)
    have hmem := List.mem_reverse.mpr (List.mem_of_find?_eq_some hfirst)
    have hnone := List.find?_eq_none.mp hlast first hmem
    rw [decide_eq_true_eq, not_and, not_not] at hnone
    rw [hnone hevent]
    exact List.nil_sublist _

/-- A method is its name. -/
theorem eq_of_name (gw : Gateway G) {a b : HandlerMethod G} (ha : a ∈ gw.methods)
    (hb : b ∈ gw.methods) (hname : a.name = b.name) : a = b :=
  List.inj_on_of_nodup_map gw.distinct ha hb hname

theorem error_not_mem_passing {guards : List G} {guard : G} {reason : String} :
    (guard, .error reason) ∉ passing guards := by
  unfold passing
  simp

theorem protected_of_guardsKept {gw : Gateway G} (hkept : GuardsKept gw)
    (e : GatewayEndpoint N V) (user : UserCode G V σ) (ambient : Option (SocketContext V σ))
    (text : String) (s : σ) : Protected gw e text (handleText gw e user ambient text s) := by
  rcases handleText_cases gw e user ambient text s with ⟨hchecked, hcalled⟩ |
    ⟨envelope, htext, ⟨passed, guard, reason, s', hout⟩ | ⟨called, reply, s', hout, hfirst⟩⟩
  · refine ⟨fun method _ hmem => ?_, fun guard reason hmem => ?_⟩
    · rw [hcalled] at hmem
      cases hmem
    · rw [hchecked] at hmem
      cases hmem
  · rw [hout]
    refine ⟨fun method _ hmem => (List.not_mem_nil hmem).elim, fun other reason' hmem => ?_⟩
    rcases List.mem_append.mp hmem with hmem | hmem
    · exact absurd hmem error_not_mem_passing
    · cases List.mem_singleton.mp hmem
      exact ⟨rfl, envelope, htext, rfl⟩
  · rw [hout]
    refine ⟨fun method hmethod hmem => ?_, fun guard reason hmem => ?_⟩
    · obtain ⟨first, hfound, hname⟩ := Option.map_eq_some_iff.mp (hfirst method.name hmem)
      obtain rfl := eq_of_name gw (List.mem_of_find?_eq_some hfound) hmethod hname
      exact (sublist_tableGuards hkept hfound).map _
    · exact absurd hmem error_not_mem_passing

/-! ## Guards that let everything pass -/

/-- An application whose guards all return `Ok` and whose payloads all deserialize. -/
def welcoming (data : V) : UserCode G V Unit where
  canActivate := fun _ _ s => (.ok (), s)
  fromValue := fun _ payload => .ok payload
  call := fun _ _ s => (.ok data, s)

theorem checkGuards_welcoming (data : V) (envelope : WsEnvelope V) (guards : List G) :
    checkGuards (welcoming data) envelope guards () = (passing guards, .ok (), ()) := by
  induction guards with
  | nil => rfl
  | cons guard guards ih =>
    unfold checkGuards
    simp only [welcoming] at ih ⊢
    rw [ih]
    rfl

theorem dispatch_welcoming {gw : Gateway G} {data : V} {envelope : WsEnvelope V}
    {first : HandlerMethod G} (hfirst : gw.first envelope.event = some first) :
    (dispatch gw.arms (welcoming data : UserCode G V Unit) envelope ()).1 = [first.name] := by
  have harm := find_arm gw envelope.event
  rw [hfirst, Option.map_some] at harm
  obtain ⟨arm, harm, hmethod⟩ := Option.map_eq_some_iff.mp harm
  unfold dispatch
  rw [harm, ← hmethod]
  simp only [welcoming]
  split
  · exact run_called arm _ _ _
  · exact run_called arm _ _ _

/-- Then the first method is called, with the guards of the table. -/
theorem handleText_welcoming {gw : Gateway G} (e : GatewayEndpoint N V) {text : String}
    {envelope : WsEnvelope V} (data : V) {first : HandlerMethod G}
    (htext : e.json.fromStr text = .ok envelope) (hfirst : gw.first envelope.event = some first) :
    (handleText gw e (welcoming data) none text ()).called = [first.name] ∧
      (handleText gw e (welcoming data) none text ()).checked =
        passing (gw.tableGuards envelope.event) := by
  unfold handleText
  simp only [htext, check_eq, checkGuards_welcoming, dispatchIn]
  exact ⟨dispatch_welcoming hfirst, trivial⟩

/-- **Guards protect their handler.** For every gateway the macro accepts: in every message to it,
whatever its guards, methods and bridge do, a method is called only if all guards declared on it
were evaluated, in order, and returned `Ok`, and a rejection is answered with an error frame and
calls nothing, iff for each event the last method with guards has those of the first one among its
own. The assumption is that a text can be an envelope of the gateway's events. -/
theorem messages_protected_iff (gw : Gateway G) (server : N) (json : Json V)
    (hjson : ∀ method ∈ gw.methods, ∃ text envelope, json.fromStr text = .ok envelope ∧
      envelope.event = method.event) :
    (∀ (σ : Type) (user : UserCode G V σ) (ambient : Option (SocketContext V σ)) (text : String)
      (s : σ), Protected gw (gw.endpoint server ambient.isSome json) text
        (handleText gw (gw.endpoint server ambient.isSome json) user ambient text s)) ↔
      GuardsKept gw := by
  constructor
  · intro hprotected event first last hfirst hlast
    have hmem := List.mem_of_find?_eq_some hfirst
    obtain ⟨text, envelope, htext, hevent⟩ := hjson first hmem
    have hown : first.event = event := of_decide_eq_true (List.find?_some hfirst :)
    rw [hown] at hevent
    subst hevent
    obtain ⟨hcalled, hchecked⟩ :=
      handleText_welcoming (gw.endpoint server false json) envelope.data htext hfirst
    obtain ⟨hguards, -⟩ := hprotected Unit (welcoming envelope.data) none text ()
    have hsub := hguards first hmem (by
      rw [Option.isSome_none, hcalled]
      exact List.mem_cons_self)
    rw [Option.isSome_none, hchecked] at hsub
    have htable : gw.tableGuards envelope.event = last.guards := by
      unfold Gateway.tableGuards
      rw [table_eq, hlast]
      rfl
    rw [htable] at hsub
    have hnames := hsub.map Prod.fst
    simpa [passing, Function.comp_def] using hnames
  · intro hkept σ user ambient text s
    exact protected_of_guardsKept hkept _ user ambient text s

/-! ## An event subscribed to twice -/

/-- The frame that asks for a deletion. -/
def deleteText : String := "\x7b\"event\":\"delete\",\"data\":1\x7d"

/-- Values are their texts; the client sends one envelope. -/
def deleteJson : Json String where
  fromStr text :=
    if text = deleteText then .ok ⟨"delete", "1"⟩ else .error "expected value at line 1 column 1"
  toString envelope :=
    some ("\x7b\"event\":\"" ++ envelope.event ++ "\",\"data\":" ++ envelope.data ++ "\x7d")
  error message := "\x7b\"error\":\"" ++ message ++ "\"\x7d"

/-- A client who is logged in, and no admin. -/
def member : UserCode String String Unit where
  canActivate := fun guard _ s =>
    (if guard = "LoggedIn" then .ok () else .error "admins only", s)
  fromValue := fun _ payload => .ok payload
  call := fun _ _ s => (.ok "null", s)

def deleteOwn (guards : List String) : HandlerMethod String :=
  ⟨"delete_own", "delete", [guards], [.owned], true⟩

def deleteAll (guards : List String) : HandlerMethod String :=
  ⟨"delete_all", "delete", [guards], [.owned], true⟩

/-- The second method asks for more than the first. -/
def ownFirst : Gateway String where
  methods := [deleteOwn ["LoggedIn"], deleteAll ["LoggedIn", "Admin"]]
  arms := [⟨"delete", "delete_own", true, true⟩, ⟨"delete", "delete_all", true, true⟩]
  inserts := [("delete", ["LoggedIn"]), ("delete", ["LoggedIn", "Admin"])]
  emitted := rfl
  distinct := by decide

/-- The first method asks for something else. -/
def allFirst : Gateway String where
  methods := [deleteAll ["Admin"], deleteOwn ["LoggedIn"]]
  arms := [⟨"delete", "delete_all", true, true⟩, ⟨"delete", "delete_own", true, true⟩]
  inserts := [("delete", ["Admin"]), ("delete", ["LoggedIn"])]
  emitted := rfl
  distinct := by decide

theorem ownFirst_kept : GuardsKept ownFirst := by
  intro event first last hfirst hlast
  have hevent : first.event = event := of_decide_eq_true (List.find?_some hfirst :)
  have hdelete : event = "delete" := by
    rw [← hevent]
    have hmem := List.mem_of_find?_eq_some hfirst
    rcases List.mem_cons.mp hmem with rfl | hmem
    · rfl
    · rw [List.mem_singleton.mp hmem]
      rfl
  subst hdelete
  have hown : ownFirst.first "delete" = some (deleteOwn ["LoggedIn"]) := rfl
  have hall : ownFirst.lastGuarded "delete" = some (deleteAll ["LoggedIn", "Admin"]) := rfl
  rw [hown, Option.some.injEq] at hfirst
  rw [hall, Option.some.injEq] at hlast
  rw [← hfirst, ← hlast]
  decide

/-- A member's request is turned down by the guard that the second method adds. -/
theorem ownFirst_protected :
    Protected ownFirst (ownFirst.endpoint () false deleteJson) deleteText
        (handleText ownFirst (ownFirst.endpoint () false deleteJson) member none deleteText ()) ∧
      (handleText ownFirst (ownFirst.endpoint () false deleteJson) member none deleteText
        ()).checked = [("LoggedIn", .ok ()), ("Admin", .error "admins only")] := by
  have htexts : ∀ method ∈ ownFirst.methods, ∃ text envelope,
      deleteJson.fromStr text = .ok envelope ∧ envelope.event = method.event := by
    intro method hmem
    refine ⟨deleteText, ⟨"delete", "1"⟩, rfl, ?_⟩
    rcases List.mem_cons.mp hmem with rfl | hmem
    · rfl
    · rw [List.mem_singleton.mp hmem]
      rfl
  exact ⟨(messages_protected_iff ownFirst () deleteJson htexts).mpr ownFirst_kept Unit member none
    deleteText (), rfl⟩

/-- The method for admins runs for a member: the guard that is asked is that of the other method. -/
theorem allFirst_unprotected :
    (handleText allFirst (allFirst.endpoint () false deleteJson) member none deleteText
        ()).called = ["delete_all"] ∧
      (handleText allFirst (allFirst.endpoint () false deleteJson) member none deleteText
        ()).checked = [("LoggedIn", .ok ())] ∧
      (member.canActivate "Admin" ⟨"delete", "1"⟩ ()).1 = .error "admins only" ∧
      ¬ Protected allFirst (allFirst.endpoint () false deleteJson) deleteText
        (handleText allFirst (allFirst.endpoint () false deleteJson) member none deleteText
          ()) := by
  refine ⟨rfl, rfl, rfl, fun h => ?_⟩
  have hsub := (h.1 (deleteAll ["Admin"]) List.mem_cons_self List.mem_cons_self).map Prod.fst
  have hadmin : "Admin" ∈ ["LoggedIn"] := hsub.subset List.mem_cons_self
  exact absurd hadmin (by decide)

end Nestrs.Ws.Messages
