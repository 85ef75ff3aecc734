import Nestrs.Core.Lifecycle
import Mathlib.Data.List.Perm.Basic
import Mathlib.Logic.Function.Basic

/-!
# The event bus and its wiring

Model of `crates/nestrs-events` (`bus.rs`, `meta.rs`, `module.rs`, and the `wire` thunk that
`#[on_event]` emits) inside the boot of an app (`App::init`, `App::run`).

* `EventBus` maps an event type to its handlers. `subscribe` pushes; `emit` clones the list out and
  runs it in order, so what an emission runs is decided when it is made, and later subscriptions or
  interleaved emissions do not change it.
* `wire_handlers` subscribes every discovered handler. It is a lifecycle hook like any other:
  `(EventModule, wire_handlers)` in the bootstrap phase, sorted among the hooks of the program. It
  does nothing when there is no bus, and it does not ask whether it has run before.
* The life of an app is a number of calls of `init`, then `run`. Both go through the two init
  phases; an error ends the call. `step` is one step of such a life: the next hook, the end of a
  hook with either result, and emissions, by the hook that is running or by anything else that holds
  the bus (a transport, a handler, the caller between two calls). Of the code of a hook the types of
  events it may emit are given; whether and how often it does, and what it returns, is not: the runs
  are all possibilities.

Results:
* `bus_of_reachable`: at any time the bus holds each discovered handler as often as `wire_handlers`
  has run;
* `hooksFor_bootstrap`: which hooks the bootstrap phase runs before `wire_handlers`;
* **`delivered_once_iff`**: every emission by a bootstrap hook, or after a bootstrap phase, runs
  each discovered handler of its type exactly once, iff there is no bus or no handler, or `init` is
  not called and those hooks emit nothing that has a handler.
-/

namespace Nestrs.Events

open Nestrs.Core Nestrs.Lib

variable {U T : Type}

/-! ## The bus -/

/-- `EventHandlerMeta`: a discovered `#[on_event]` struct and its `type Event`. -/
structure EventHandlerMeta (T : Type) where
  name : String
  event : T
deriving DecidableEq, Repr

/-- `EventBus`: the handlers of each event type, in registration order. -/
def EventBus (T : Type) : Type := T → List (EventHandlerMeta T)

namespace EventBus

/-- `EventBus::new`. -/
def new : EventBus T := fun _ => []

/-- `EventBus::subscribe`. -/
def subscribe [DecidableEq T] (bus : EventBus T) (event : T) (handler : EventHandlerMeta T) :
    EventBus T :=
  Function.update bus event (bus event ++ [handler])

/-- `EventBus::emit`: the handlers it runs, in turn. -/
def emit (bus : EventBus T) (event : T) : List (EventHandlerMeta T) := bus event

theorem subscribe_self [DecidableEq T] (bus : EventBus T) (event : T)
    (handler : EventHandlerMeta T) :
    bus.subscribe event handler event = bus event ++ [handler] :=
  Function.update_self event _ bus

theorem subscribe_of_ne [DecidableEq T] (bus : EventBus T) {event other : T}
    (handler : EventHandlerMeta T) (h : other ≠ event) :
    bus.subscribe event handler other = bus other :=
  Function.update_of_ne h _ bus

end EventBus

/-- The loop of `wire_handlers`: each `wire` subscribes its handler to its event. -/
def wireHandlers [DecidableEq T] (bus : EventBus T) (discovered : List (EventHandlerMeta T)) :
    EventBus T :=
  discovered.foldl (fun bus handler => bus.subscribe handler.event handler) bus

/-! ## The app -/

/-- What a hook of the registry runs. -/
inductive HookRun (U : Type) where
  | wireHandlers
  | user (run : U)
deriving DecidableEq, Repr

/-- The hook that `module.rs` submits. -/
def wireHook : LifecycleHook (HookRun U) :=
  ⟨.onApplicationBootstrap, "EventModule", "wire_handlers", .wireHandlers⟩

def userHook (hook : LifecycleHook U) : LifecycleHook (HookRun U) :=
  ⟨hook.phase, hook.provider, hook.method, .user hook.run⟩

/-- An app: the hooks of the program, by the side of the events crate they are linked on, the types
of events that the code of a hook may emit, whether `EventModule` is imported, and the handlers that
discovery finds. -/
structure EventApp (U T : Type) where
  linkedBefore : List (LifecycleHook U)
  linkedAfter : List (LifecycleHook U)
  emits : U → T → Bool
  imported : Bool
  discovered : List (EventHandlerMeta T)

namespace EventApp

variable (app : EventApp U T)

/-- The link-time registry. -/
def registry : List (LifecycleHook (HookRun U)) :=
  app.linkedBefore.map userHook ++ wireHook :: app.linkedAfter.map userHook

/-- The hooks of a boot: `OnModuleInit`, then `OnApplicationBootstrap`. -/
def bootHooks : List (LifecycleHook (HookRun U)) :=
  hooksFor app.registry .onModuleInit ++ hooksFor app.registry .onApplicationBootstrap

/-- The discovered handlers of an event type. -/
def handlersOf [DecidableEq T] (event : T) : List (EventHandlerMeta T) :=
  app.discovered.filter fun handler => handler.event = event

/-- Whether what a hook runs may emit an event of this type. -/
def runEmits : HookRun U → T → Bool
  | .wireHandlers, _ => false
  | .user run, event => app.emits run event

end EventApp

/-! ## Hooks in front of the wiring -/

/-- The key of `wire_handlers`. -/
def wireKey : Lex (String × String) := toLex ("EventModule", "wire_handlers")

/-- The hook is run in the bootstrap phase before `wire_handlers`: it sorts before it, by provider
and then by method, or has its key and is linked before it. -/
def Early (app : EventApp U T) (hook : LifecycleHook U) : Prop :=
  hook.phase = .onApplicationBootstrap ∧
    (hook ∈ app.linkedBefore ∧ hook.key ≤ wireKey ∨ hook ∈ app.linkedAfter ∧ hook.key < wireKey)

/-- What early hooks may emit has no handler. -/
def EarlyQuiet [DecidableEq T] (app : EventApp U T) : Prop :=
  ∀ hook, Early app hook → ∀ event, app.emits hook.run event = true → app.handlersOf event = []

/-- Whether a hook is `wire_handlers`. -/
def isWire (hook : LifecycleHook (HookRun U)) : Bool :=
  match hook.run with
  | .wireHandlers => true
  | .user _ => false

/-- A boot runs `wire_handlers` once, in the bootstrap phase. -/
theorem countP_isWire_hooksFor (app : EventApp U T) (phase : LifecyclePhase) :
    (hooksFor app.registry phase).countP isWire =
      if phase = .onApplicationBootstrap then 1 else 0 := by
  have huser : ∀ own : List (LifecycleHook U),
      ((own.map userHook).filter fun hook => hook.phase = phase).countP isWire = 0 := by
    intro own
    rw [List.countP_eq_zero]
    intro hook hhook
    obtain ⟨own, -, rfl⟩ := List.mem_map.mp (List.mem_filter.mp hhook).1
    exact Bool.false_ne_true
  rw [(hooksFor_perm app.registry phase).countP_eq]
  unfold EventApp.registry
  rw [List.filter_append, List.countP_append, huser, Nat.zero_add]
  by_cases hphase : phase = .onApplicationBootstrap
  · subst hphase
    rw [List.filter_cons_of_pos (by simp [wireHook]), List.countP_cons_of_pos rfl, huser,
      if_pos rfl]
  · rw [List.filter_cons_of_neg (by simp [wireHook, Ne.symm hphase]), huser, if_neg hphase]

theorem countP_isWire_bootHooks (app : EventApp U T) : app.bootHooks.countP isWire = 1 := by
  unfold EventApp.bootHooks
  rw [List.countP_append, countP_isWire_hooksFor, countP_isWire_hooksFor]
  rfl

/-- The bootstrap phase runs the early hooks, `wire_handlers`, and the others. -/
theorem hooksFor_bootstrap (app : EventApp U T) :
    ∃ first last, hooksFor app.registry .onApplicationBootstrap = first ++ wireHook :: last ∧
      ∀ hook, hook ∈ first ↔ ∃ own, Early app own ∧ hook = userHook own := by
  obtain ⟨first, last, hsplit, hfirst⟩ := hooksFor_split wireHook
    (app.linkedBefore.map userHook) (app.linkedAfter.map userHook)
  refine ⟨first, last, hsplit, fun hook => ?_⟩
  rw [hfirst]
  constructor
  · rintro ⟨hphase, ⟨hmem, hle⟩ | ⟨hmem, hle⟩⟩
    · obtain ⟨own, hown, rfl⟩ := List.mem_map.mp hmem
      exact ⟨own, ⟨hphase, Or.inl ⟨hown, hle⟩⟩, rfl⟩
    · obtain ⟨own, hown, rfl⟩ := List.mem_map.mp hmem
      exact ⟨own, ⟨hphase, Or.inr ⟨hown, lt_of_not_ge hle⟩⟩, rfl⟩
  · rintro ⟨own, ⟨hphase, ⟨hown, hle⟩ | ⟨hown, hlt⟩⟩, rfl⟩
    · exact ⟨hphase, Or.inl ⟨List.mem_map_of_mem hown, hle⟩⟩
    · exact ⟨hphase, Or.inr ⟨List.mem_map_of_mem hown, not_le_of_gt hlt⟩⟩

/-- A bootstrap hook that is not early runs with the handlers wired. -/
theorem wired_or_early {app : EventApp U T} {ran rest : List (LifecycleHook (HookRun U))}
    {hook : LifecycleHook (HookRun U)} (hran : ran ++ hook :: rest = app.bootHooks)
    (hphase : hook.phase = .onApplicationBootstrap) (hwire : isWire hook = false) :
    ran.countP isWire = 1 ∨ ∃ own, Early app own ∧ hook = userHook own := by
  obtain ⟨first, last, hsplit, hfirst⟩ := hooksFor_bootstrap app
  have hcount := countP_isWire_bootHooks app
  rw [← hran, List.countP_append] at hcount
  unfold EventApp.bootHooks at hran
  rw [hsplit, ← List.append_assoc] at hran
  rcases List.append_eq_append_iff.mp hran with ⟨late, hinit, htail⟩ | ⟨late, rfl, htail⟩
  · cases late with
    | nil =>
      obtain ⟨rfl, -⟩ := List.cons.inj htail
      cases hwire
    | cons x late =>
      obtain ⟨rfl, -⟩ := List.cons.inj htail
      have hmem : hook ∈ hooksFor app.registry .onModuleInit ++ first := by
        rw [hinit]
        exact List.mem_append_right ran List.mem_cons_self
      rcases List.mem_append.mp hmem with hmem | hmem
      · have hinitPhase := (mem_hooksFor.mp hmem).2
        rw [hphase] at hinitPhase
        cases hinitPhase
      · exact Or.inr ((hfirst hook).mp hmem)
  · cases late with
    | nil =>
      obtain ⟨rfl, -⟩ := List.cons.inj htail
      cases hwire
    | cons x late =>
      obtain ⟨rfl, -⟩ := List.cons.inj htail
      rw [List.countP_append, List.countP_cons_of_pos rfl] at hcount ⊢
      exact Or.inl (by omega)

/-! ## The life of an app -/

/-- The call a boot belongs to. -/
inductive BootCall where
  | init
  | run

/-- Where the app is. -/
inductive AppPc (U : Type) where
  /-- No call is in progress. -/
  | idle
  /-- `run` configures its transports. -/
  | configuring
  | hooks (call : BootCall) (rest : List (LifecycleHook (HookRun U)))
  | inHook (call : BootCall) (hook : LifecycleHook (HookRun U))
      (rest : List (LifecycleHook (HookRun U)))
  /-- `run` has booted: transports, then shutdown. -/
  | serving
  /-- `run` has returned an error of its boot. -/
  | failed

/-- A call of `emit`, and when it was made. -/
structure Emission (T : Type) where
  event : T
  ran : List (EventHandlerMeta T)
  byBootstrapHook : Bool
  afterBootstrap : Bool
deriving DecidableEq, Repr

structure AppState (U T : Type) where
  pc : AppPc U
  /-- The calls of `init` still to come before `run`. -/
  initsLeft : Nat
  bus : Option (EventBus T)
  /-- How often `wire_handlers` has run. -/
  wired : Nat
  /-- A bootstrap phase has come to its end. -/
  bootstrapped : Bool
  emissions : List (Emission T)

/-- The app as built, before `inits` calls of `init` and one of `run`. -/
def AppState.built (app : EventApp U T) (inits : Nat) : AppState U T :=
  ⟨.idle, inits, if app.imported then some .new else none, 0, false, []⟩

def AppState.record (s : AppState U T) (emission : Emission T) : AppState U T :=
  { s with emissions := s.emissions ++ [emission] }

inductive AppAction (T : Type) where
  | init
  | run
  | configured (ok : Bool)
  | next
  | hookEnds (ok : Bool)
  | hookEmits (event : T)
  | emit (event : T)

/-- One step in the life of the app. -/
def step [DecidableEq T] (app : EventApp U T) (s : AppState U T) :
    AppAction T → Option (AppState U T)
  | .init =>
    match s.pc, s.initsLeft with
    | .idle, n + 1 => some { s with pc := .hooks .init app.bootHooks, initsLeft := n }
    | _, _ => none
  | .run =>
    match s.pc, s.initsLeft with
    | .idle, 0 => some { s with pc := .configuring }
    | _, _ => none
  | .configured ok =>
    match s.pc with
    | .configuring => some { s with pc := if ok then .hooks .run app.bootHooks else .failed }
    | _ => none
  | .next =>
    match s.pc with
    | .hooks call (hook :: rest) =>
      match hook.run with
      | .wireHandlers => some { s with
          pc := .hooks call rest
          bus := s.bus.map fun bus => wireHandlers bus app.discovered
          wired := s.wired + 1 }
      | .user _ => some { s with pc := .inHook call hook rest }
    | .hooks .init [] => some { s with pc := .idle, bootstrapped := true }
    | .hooks .run [] => some { s with pc := .serving, bootstrapped := true }
    | _ => none
  | .hookEnds ok =>
    match s.pc with
    | .inHook call _ rest =>
      -- an error ends the call; after a failed `init` the caller still has the app
      some { s with pc := match ok, call with
        | true, _ => .hooks call rest
        | false, .init => .idle
        | false, .run => .failed }
    | _ => none
  | .hookEmits event =>
    match s.pc, s.bus with
    | .inHook _ hook _, some bus =>
      if app.runEmits hook.run event then
        some (s.record
          ⟨event, bus.emit event, hook.phase = .onApplicationBootstrap, s.bootstrapped⟩)
      else none
    | _, _ => none
  | .emit event =>
    match s.bus with
    | some bus => some (s.record ⟨event, bus.emit event, false, s.bootstrapped⟩)
    | none => none

/-- The states of all lives with this number of calls of `init`. -/
inductive Reachable [DecidableEq T] (app : EventApp U T) (inits : Nat) : AppState U T → Prop
  | built : Reachable app inits (.built app inits)
  | step {s s' : AppState U T} (a : AppAction T) (h : Reachable app inits s)
      (hstep : step app s a = some s') : Reachable app inits s'

variable [DecidableEq T] {app : EventApp U T} {inits : Nat} {s s' : AppState U T}

/-- The ways a step can be one. -/
theorem step_cases {a : AppAction T} (h : step app s a = some s') :
    (∃ n, s.pc = .idle ∧ s.initsLeft = n + 1 ∧
      s' = { s with pc := .hooks .init app.bootHooks, initsLeft := n }) ∨
    (s.pc = .idle ∧ s.initsLeft = 0 ∧ s' = { s with pc := .configuring }) ∨
    (∃ ok, s.pc = .configuring ∧
      s' = { s with pc := if ok = true then .hooks .run app.bootHooks else .failed }) ∨
    (∃ call hook rest, s.pc = .hooks call (hook :: rest) ∧ hook.run = .wireHandlers ∧
      s' = { s with
        pc := .hooks call rest
        bus := s.bus.map fun bus => wireHandlers bus app.discovered
        wired := s.wired + 1 }) ∨
    (∃ call hook rest u, s.pc = .hooks call (hook :: rest) ∧ hook.run = .user u ∧
      s' = { s with pc := .inHook call hook rest }) ∨
    (∃ call, s.pc = .hooks call [] ∧ s' = { s with
      pc := match call with | .init => .idle | .run => .serving
      bootstrapped := true }) ∨
    (∃ ok call hook rest, s.pc = .inHook call hook rest ∧ s' = { s with
      pc := match ok, call with
        | true, _ => .hooks call rest
        | false, .init => .idle
        | false, .run => .failed }) ∨
    (∃ call hook rest bus event, s.pc = .inHook call hook rest ∧ s.bus = some bus ∧
      app.runEmits hook.run event = true ∧ s' = s.record
        ⟨event, bus.emit event, hook.phase = .onApplicationBootstrap, s.bootstrapped⟩) ∨
    (∃ bus event, s.bus = some bus ∧
      s' = s.record ⟨event, bus.emit event, false, s.bootstrapped⟩) := by
  cases a with
  | init =>
    simp only [step] at h
    split at h
    · rename_i n hpc hn
      exact Or.inl ⟨n, hpc, hn, (Option.some.inj h).symm⟩
    · cases h
  | run =>
    simp only [step] at h
    split at h
    · rename_i hpc hn
      exact Or.inr (Or.inl ⟨hpc, hn, (Option.some.inj h).symm⟩)
    · cases h
  | configured ok =>
    simp only [step] at h
    split at h
    · rename_i hpc
      exact Or.inr (Or.inr (Or.inl ⟨ok, hpc, (Option.some.inj h).symm⟩))
    · cases h
  | next =>
    refine Or.inr (Or.inr (Or.inr ?_))
    simp only [step] at h
    split at h
    · rename_i call hook rest hpc
      split at h
      · rename_i hrun
        exact Or.inl ⟨call, hook, rest, hpc, hrun, (Option.some.inj h).symm⟩
      · rename_i u hrun
        exact Or.inr (Or.inl ⟨call, hook, rest, u, hpc, hrun, (Option.some.inj h).symm⟩)
    · rename_i hpc
      exact Or.inr (Or.inr (Or.inl ⟨.init, hpc, (Option.some.inj h).symm⟩))
    · rename_i hpc
      exact Or.inr (Or.inr (Or.inl ⟨.run, hpc, (Option.some.inj h).symm⟩))
    · cases h
  | hookEnds ok =>
    refine Or.inr (Or.inr (Or.inr (Or.inr (Or.inr (Or.inr (Or.inl ?_))))))
    simp only [step] at h
    split at h
    · rename_i call hook rest hpc
      exact ⟨ok, call, hook, rest, hpc, (Option.some.inj h).symm⟩
    · cases h
  | hookEmits event =>
    refine Or.inr (Or.inr (Or.inr (Or.inr (Or.inr (Or.inr (Or.inr (Or.inl ?_)))))))
    simp only [step] at h
    split at h
    · rename_i call hook rest bus hpc hbus
      split at h
      · rename_i hemits
        exact ⟨call, hook, rest, bus, event, hpc, hbus, hemits, (Option.some.inj h).symm⟩
      · cases h
    · cases h
  | emit event =>
    refine Or.inr (Or.inr (Or.inr (Or.inr (Or.inr (Or.inr (Or.inr (Or.inr ?_)))))))
    simp only [step] at h
    split at h
    · rename_i bus hbus
      exact ⟨bus, event, hbus, (Option.some.inj h).symm⟩
    · cases h

/-! ## What the bus holds -/

theorem wireHandlers_apply (bus : EventBus T) (discovered : List (EventHandlerMeta T)) (event : T) :
    wireHandlers bus discovered event =
      bus event ++ discovered.filter fun handler => handler.event = event := by
  unfold wireHandlers
  induction discovered generalizing bus with
  | nil => exact (List.append_nil _).symm
  | cons handler discovered ih =>
    rw [List.foldl_cons, ih]
    by_cases hevent : handler.event = event
    · subst hevent
      rw [bus.subscribe_self, List.filter_cons_of_pos (by simp), List.append_assoc]
      rfl
    · rw [bus.subscribe_of_ne handler (Ne.symm hevent),
        List.filter_cons_of_neg (by simpa using hevent)]

/-- The bus after `wire_handlers` has run this often. -/
def wiredBus (app : EventApp U T) (wired : Nat) : EventBus T :=
  fun event => (List.replicate wired (app.handlersOf event)).flatten

theorem wireHandlers_wiredBus (app : EventApp U T) (wired : Nat) :
    wireHandlers (wiredBus app wired) app.discovered = wiredBus app (wired + 1) := by
  funext event
  rw [wireHandlers_apply]
  unfold wiredBus EventApp.handlersOf
  rw [List.replicate_succ', List.flatten_append, List.flatten_singleton]

/-- Wherever the app is, the bus holds what the runs of `wire_handlers` have put there. -/
theorem bus_of_reachable (h : Reachable app inits s) :
    s.bus = if app.imported then some (wiredBus app s.wired) else none := by
  induction h with
  | built => rfl
  | step a _ hstep ih =>
    rcases step_cases hstep with ⟨n, -, -, rfl⟩ | ⟨-, -, rfl⟩ | ⟨ok, -, rfl⟩ |
      ⟨call, hook, rest, -, -, rfl⟩ | ⟨call, hook, rest, u, -, -, rfl⟩ | ⟨call, -, rfl⟩ |
      ⟨ok, call, hook, rest, -, rfl⟩ | ⟨call, hook, rest, bus, event, -, -, -, rfl⟩ |
      ⟨bus, event, -, rfl⟩
    case inr.inr.inr.inl =>
      simp only [ih]
      split
      · rw [Option.map_some, wireHandlers_wiredBus]
      · rfl
    all_goals exact ih

/-! ## Emissions -/

/-- The emission is one that a step out of the state can make. -/
structure Made (app : EventApp U T) (inits : Nat) (s : AppState U T) (bus : EventBus T)
    (emission : Emission T) : Prop where
  reachable : Reachable app inits s
  onBus : s.bus = some bus
  ran : emission.ran = bus.emit emission.event
  afterBootstrap : emission.afterBootstrap = s.bootstrapped
  byBootstrapHook : emission.byBootstrapHook = true →
    ∃ call hook rest, s.pc = .inHook call hook rest ∧ hook.phase = .onApplicationBootstrap ∧
      app.runEmits hook.run emission.event = true

/-- What holds of every emission when it is made holds of all emissions of a life. -/
theorem emissions_induction {P : Emission T → Prop}
    (hmade : ∀ s bus emission, Made app inits s bus emission → P emission)
    (h : Reachable app inits s) : ∀ emission ∈ s.emissions, P emission := by
  induction h with
  | built => exact fun emission hemission => absurd hemission List.not_mem_nil
  | @step s s' a hreach hstep ih =>
    rcases step_cases hstep with ⟨n, -, -, rfl⟩ | ⟨-, -, rfl⟩ | ⟨ok, -, rfl⟩ |
      ⟨call, hook, rest, -, -, rfl⟩ | ⟨call, hook, rest, u, -, -, rfl⟩ | ⟨call, -, rfl⟩ |
      ⟨ok, call, hook, rest, -, rfl⟩ | ⟨call, hook, rest, bus, event, hpc, hbus, hemits, rfl⟩ |
      ⟨bus, event, hbus, rfl⟩
    case inr.inr.inr.inr.inr.inr.inr.inl =>
      refine List.forall_mem_append.mpr ⟨ih, List.forall_mem_singleton.mpr ?_⟩
      exact hmade s bus _ ⟨hreach, hbus, rfl, rfl,
        fun hphase => ⟨call, hook, rest, hpc, of_decide_eq_true hphase, hemits⟩⟩
    case inr.inr.inr.inr.inr.inr.inr.inr =>
      refine List.forall_mem_append.mpr ⟨ih, List.forall_mem_singleton.mpr ?_⟩
      exact hmade s bus _ ⟨hreach, hbus, rfl, rfl, nofun⟩
    all_goals exact ih

theorem imported_of_made {bus : EventBus T} {emission : Emission T}
    (h : Made app inits s bus emission) : app.imported = true := by
  have hbus := h.onBus
  rw [bus_of_reachable h.reachable] at hbus
  by_contra himported
  rw [if_neg himported] at hbus
  cases hbus

/-- An emission runs what the bus holds. -/
theorem ran_of_made {bus : EventBus T} {emission : Emission T}
    (h : Made app inits s bus emission) : emission.ran = wiredBus app s.wired emission.event := by
  have hbus := h.onBus
  rw [bus_of_reachable h.reachable, if_pos (imported_of_made h)] at hbus
  rw [h.ran, ← Option.some.inj hbus]
  rfl

/-! ## A life without `init` -/

/-- An emission of an app that boots or has booted: by a bootstrap hook, or after a bootstrap
phase. -/
def Emission.SinceBootstrap (emission : Emission T) : Prop :=
  emission.byBootstrapHook = true ∨ emission.afterBootstrap = true

/-- Where a boot is, and how often it has wired the handlers so far. -/
def BootAt (app : EventApp U T) (s : AppState U T) (call : BootCall)
    (rest : List (LifecycleHook (HookRun U))) : Prop :=
  call = .run ∧ s.bootstrapped = false ∧
    ∃ ran, ran ++ rest = app.bootHooks ∧ s.wired = ran.countP isWire

/-- The invariant of a life without `init`, place by place. -/
def AtPc (app : EventApp U T) (s : AppState U T) : Prop :=
  match s.pc with
  | .idle | .configuring => s.bootstrapped = false ∧ s.wired = 0
  | .hooks call rest => BootAt app s call rest
  | .inHook call hook rest => BootAt app s call (hook :: rest) ∧ isWire hook = false
  | .serving => s.wired = 1
  | .failed => s.bootstrapped = false

theorem atPc_step {a : AppAction T} (hstep : step app s a = some s') (hinits : s.initsLeft = 0)
    (h : AtPc app s) : AtPc app s' ∧ s'.initsLeft = 0 := by
  rcases step_cases hstep with ⟨n, -, hn, -⟩ | ⟨hpc, -, rfl⟩ | ⟨ok, hpc, rfl⟩ |
    ⟨call, hook, rest, hpc, hrun, rfl⟩ | ⟨call, hook, rest, u, hpc, hrun, rfl⟩ | ⟨call, hpc, rfl⟩ |
    ⟨ok, call, hook, rest, hpc, rfl⟩ | ⟨call, hook, rest, bus, event, -, -, -, rfl⟩ |
    ⟨bus, event, -, rfl⟩
  · rw [hinits] at hn
    cases hn
  · unfold AtPc at h
    rw [hpc] at h
    exact ⟨h, hinits⟩
  · unfold AtPc at h
    rw [hpc] at h
    refine ⟨?_, hinits⟩
    cases ok with
    | true => exact ⟨rfl, h.1, [], rfl, h.2⟩
    | false => exact h.1
  · unfold AtPc at h
    rw [hpc] at h
    obtain ⟨hcall, hboot, ran, hran, hwired⟩ := h
    refine ⟨⟨hcall, hboot, ran ++ [hook], ?_, ?_⟩, hinits⟩
    · rw [List.append_assoc]
      exact hran
    · have hwire : isWire hook = true := by
        unfold isWire
        rw [hrun]
      rw [List.countP_append, List.countP_singleton, hwire, ← hwired]
      rfl
  · unfold AtPc at h
    rw [hpc] at h
    refine ⟨⟨h, ?_⟩, hinits⟩
    unfold isWire
    rw [hrun]
  · unfold AtPc at h
    rw [hpc] at h
    obtain ⟨rfl, -, ran, hran, hwired⟩ := h
    rw [List.append_nil] at hran
    refine ⟨?_, hinits⟩
    show s.wired = 1
    rw [hwired, hran, countP_isWire_bootHooks]
  · unfold AtPc at h
    rw [hpc] at h
    obtain ⟨⟨rfl, hboot, ran, hran, hwired⟩, hwire⟩ := h
    refine ⟨?_, hinits⟩
    cases ok with
    | true =>
      refine ⟨rfl, hboot, ran ++ [hook], ?_, ?_⟩
      · rw [List.append_assoc]
        exact hran
      · rw [List.countP_append, List.countP_singleton, hwire]
        exact hwired
    | false => exact hboot
  · exact ⟨h, hinits⟩
  · exact ⟨h, hinits⟩

theorem atPc_of_reachable (h : Reachable app 0 s) : AtPc app s ∧ s.initsLeft = 0 := by
  induction h with
  | built => exact ⟨⟨rfl, rfl⟩, rfl⟩
  | step a _ hstep ih => exact atPc_step hstep ih.2 ih.1

omit [DecidableEq T] in
theorem wired_of_bootstrapped (h : AtPc app s) (hboot : s.bootstrapped = true) : s.wired = 1 := by
  unfold AtPc at h
  split at h
  · rw [h.1] at hboot
    cases hboot
  · rw [h.1] at hboot
    cases hboot
  · rw [h.2.1] at hboot
    cases hboot
  · rw [h.1.2.1] at hboot
    cases hboot
  · exact h
  · rw [h] at hboot
    cases hboot

theorem wiredBus_one (app : EventApp U T) : wiredBus app 1 = app.handlersOf := by
  funext event
  exact List.append_nil _

/-- The bus has nothing for an event without handlers. -/
theorem wiredBus_eq_nil {event : T} (h : app.handlersOf event = []) (wired : Nat) :
    wiredBus app wired event = [] := by
  unfold wiredBus
  rw [h, List.flatten_replicate_nil]

/-- With quiet early hooks, a life without `init` delivers once. -/
theorem ran_of_earlyQuiet (hquiet : EarlyQuiet app) (h : Reachable app 0 s) :
    ∀ emission ∈ s.emissions, emission.SinceBootstrap →
      emission.ran = app.handlersOf emission.event := by
  refine emissions_induction (fun s bus emission hmade hsince => ?_) h
  obtain ⟨hpc, -⟩ := atPc_of_reachable hmade.reachable
  have hwired : s.wired = 1 ∨ app.handlersOf emission.event = [] := by
    rcases hsince with hhook | hafter
    · obtain ⟨call, hook, rest, hat, hphase, hemits⟩ := hmade.byBootstrapHook hhook
      unfold AtPc at hpc
      rw [hat] at hpc
      obtain ⟨⟨-, -, ran, hran, hwired⟩, hwire⟩ := hpc
      rcases wired_or_early hran hphase hwire with honce | ⟨own, hearly, rfl⟩
      · exact Or.inl (hwired.trans honce)
      · exact Or.inr (hquiet own hearly emission.event hemits)
    · exact Or.inl (wired_of_bootstrapped hpc (hmade.afterBootstrap.symm.trans hafter))
  rw [ran_of_made hmade]
  rcases hwired with hwired | hnone
  · rw [hwired, wiredBus_one]
  · rw [wiredBus_eq_nil hnone, hnone]

/-! ## Lives that deliver otherwise -/

/-- A boot can get through the next hooks, all of them returning `Ok`. -/
theorem exists_through {call : BootCall} (pre rest : List (LifecycleHook (HookRun U)))
    (h : Reachable app inits s) (hpc : s.pc = .hooks call (pre ++ rest)) :
    ∃ s', Reachable app inits s' ∧ s'.pc = .hooks call rest ∧
      s'.wired = s.wired + pre.countP isWire ∧ s'.initsLeft = s.initsLeft := by
  induction pre generalizing s with
  | nil => exact ⟨s, h, hpc, rfl, rfl⟩
  | cons hook pre ih =>
    rw [List.cons_append] at hpc
    cases hrun : hook.run with
    | wireHandlers =>
      have hwire : isWire hook = true := by
        unfold isWire
        rw [hrun]
      have hnext : step app s .next = some { s with
          pc := .hooks call (pre ++ rest)
          bus := s.bus.map fun bus => wireHandlers bus app.discovered
          wired := s.wired + 1 } := by
        simp only [step, hpc, hrun]
      obtain ⟨s', hreach, hpc', hwired, hinits⟩ := ih (.step _ h hnext) rfl
      refine ⟨s', hreach, hpc', ?_, hinits⟩
      rw [List.countP_cons_of_pos hwire, hwired]
      exact Nat.add_right_comm s.wired 1 _
    | user u =>
      have hwire : isWire hook = false := by
        unfold isWire
        rw [hrun]
      have hnext : step app s .next = some { s with pc := .inHook call hook (pre ++ rest) } := by
        simp only [step, hpc, hrun]
      have hends : step app { s with pc := .inHook call hook (pre ++ rest) } (.hookEnds true) =
          some { s with pc := .hooks call (pre ++ rest) } := rfl
      obtain ⟨s', hreach, hpc', hwired, hinits⟩ := ih (.step _ (.step _ h hnext) hends) rfl
      refine ⟨s', hreach, hpc', ?_, hinits⟩
      rw [List.countP_cons_of_neg (by simp [hwire])]
      exact hwired

/-- The calls of `init` can all be made, each wiring the handlers. -/
theorem exists_inits {left : Nat} (h : Reachable app inits s) (hpc : s.pc = .idle)
    (hleft : s.initsLeft = left) :
    ∃ s', Reachable app inits s' ∧ s'.pc = .idle ∧ s'.initsLeft = 0 ∧
      s'.wired = s.wired + left := by
  induction left generalizing s with
  | zero => exact ⟨s, h, hpc, hleft, rfl⟩
  | succ left ih =>
    have hinit : step app s .init =
        some { s with pc := .hooks .init app.bootHooks, initsLeft := left } := by
      simp only [step, hpc, hleft]
    have hbegun := Reachable.step _ h hinit
    obtain ⟨s₁, hreach, hpc₁, hwired, hleft₁⟩ :=
      exists_through app.bootHooks [] hbegun (by rw [List.append_nil])
    have hdone : step app s₁ .next = some { s₁ with pc := .idle, bootstrapped := true } := by
      simp only [step, hpc₁]
    obtain ⟨s', hreach', hpc', hnone, hwired'⟩ := ih (.step _ hreach hdone) rfl hleft₁
    refine ⟨s', hreach', hpc', hnone, ?_⟩
    rw [hwired']
    show s₁.wired + left = s.wired + (left + 1)
    rw [hwired, countP_isWire_bootHooks]
    show s.wired + 1 + left = s.wired + (left + 1)
    omega

/-- A call of `run` can come to its first hook. -/
theorem exists_run (app : EventApp U T) (inits : Nat) :
    ∃ s, Reachable app inits s ∧ s.pc = .hooks .run app.bootHooks ∧ s.wired = inits := by
  obtain ⟨s, hreach, hpc, hleft, hwired⟩ :=
    exists_inits (s := .built app inits) .built rfl rfl
  have hrun : step app s .run = some { s with pc := .configuring } := by
    simp only [step, hpc, hleft]
  have hconfigured : step app { s with pc := .configuring } (.configured true) =
      some { s with pc := .hooks .run app.bootHooks } := rfl
  exact ⟨_, .step _ (.step _ hreach hrun) hconfigured, rfl, hwired.trans (Nat.zero_add inits)⟩

/-- After the boot of `run` anyone can emit. -/
theorem exists_late_emission (himported : app.imported = true) (inits : Nat) (event : T) :
    ∃ s, Reachable app inits s ∧ ∃ emission ∈ s.emissions, emission.SinceBootstrap ∧
      emission.event = event ∧ emission.ran = wiredBus app (inits + 1) event := by
  obtain ⟨s₀, hreach₀, hpc₀, hwired₀⟩ := exists_run app inits
  obtain ⟨s, hreach, hpc, hwired, -⟩ :=
    exists_through app.bootHooks [] hreach₀ (by rw [hpc₀, List.append_nil])
  rw [hwired₀, countP_isWire_bootHooks] at hwired
  have hnext : step app s .next = some { s with pc := .serving, bootstrapped := true } := by
    simp only [step, hpc]
  have hbus : s.bus = some (wiredBus app (inits + 1)) := by
    rw [bus_of_reachable hreach, if_pos himported, hwired]
  have hemit : step app { s with pc := .serving, bootstrapped := true } (.emit event) =
      some (AppState.record { s with pc := .serving, bootstrapped := true }
        ⟨event, (wiredBus app (inits + 1)).emit event, false, true⟩) := by
    simp only [step, hbus]
  exact ⟨_, .step _ (.step _ hreach hnext) hemit, _, List.mem_append_right _ List.mem_cons_self,
    Or.inr rfl, rfl, rfl⟩

/-- An early hook can emit what it may, before the handlers are wired. -/
theorem exists_early_emission (himported : app.imported = true) {own : LifecycleHook U}
    (hearly : Early app own) (inits : Nat) {event : T} (hemits : app.emits own.run event = true) :
    ∃ s, Reachable app inits s ∧ ∃ emission ∈ s.emissions, emission.SinceBootstrap ∧
      emission.event = event ∧ emission.ran = wiredBus app inits event := by
  obtain ⟨s₀, hreach₀, hpc₀, hwired₀⟩ := exists_run app inits
  obtain ⟨first, last, hsplit, hfirst⟩ := hooksFor_bootstrap app
  obtain ⟨pre, post, hpre⟩ := List.append_of_mem ((hfirst (userHook own)).mpr ⟨own, hearly, rfl⟩)
  have hboot : app.bootHooks = (hooksFor app.registry .onModuleInit ++ pre) ++
      userHook own :: (post ++ wireHook :: last) := by
    unfold EventApp.bootHooks
    rw [hsplit, hpre]
    simp only [List.append_assoc, List.cons_append]
  rw [hboot] at hpc₀
  obtain ⟨s, hreach, hpc, hwired, -⟩ := exists_through _ _ hreach₀ hpc₀
  have hnone : (hooksFor app.registry .onModuleInit ++ pre).countP isWire = 0 := by
    have hcount := countP_isWire_bootHooks app
    have hwire : (post ++ wireHook :: last).countP isWire =
        post.countP isWire + (last.countP isWire + 1) := by
      rw [List.countP_append, List.countP_cons_of_pos rfl]
    rw [hboot, List.countP_append, List.countP_cons_of_neg Bool.false_ne_true, hwire] at hcount
    omega
  rw [hwired₀, hnone, Nat.add_zero] at hwired
  have hnext : step app s .next = some { s with
      pc := .inHook .run (userHook own) (post ++ wireHook :: last) } := by
    simp only [step, hpc, userHook]
  have hbus : s.bus = some (wiredBus app inits) := by
    rw [bus_of_reachable hreach, if_pos himported, hwired]
  have hown : app.runEmits (userHook own).run event = true := hemits
  have hemit : step app { s with pc := .inHook .run (userHook own) (post ++ wireHook :: last) }
      (.hookEmits event) = some (AppState.record
        { s with pc := .inHook .run (userHook own) (post ++ wireHook :: last) }
        ⟨event, (wiredBus app inits).emit event,
          (userHook own).phase = .onApplicationBootstrap, s.bootstrapped⟩) := by
    simp only [step, hbus, hown, if_true]
  exact ⟨_, .step _ (.step _ hreach hnext) hemit, _, List.mem_append_right _ List.mem_cons_self,
    Or.inl (decide_eq_true hearly.1), rfl, rfl⟩

theorem length_wiredBus (app : EventApp U T) (wired : Nat) (event : T) :
    (wiredBus app wired event).length = wired * (app.handlersOf event).length := by
  unfold wiredBus
  rw [List.length_flatten, List.map_replicate, List.sum_replicate_nat]

/-- A bus wired any other number of times runs the wrong number of handlers. -/
theorem eq_one_of_delivers {wired : Nat} {event : T} (hsome : app.handlersOf event ≠ [])
    (hdelivers : ∀ s, Reachable app inits s → ∀ emission ∈ s.emissions, emission.SinceBootstrap →
      emission.ran.Perm (app.handlersOf emission.event))
    (hran : ∃ s, Reachable app inits s ∧ ∃ emission ∈ s.emissions, emission.SinceBootstrap ∧
      emission.event = event ∧ emission.ran = wiredBus app wired event) : wired = 1 := by
  obtain ⟨s, hreach, emission, hemission, hsince, hevent, hran⟩ := hran
  have hlength := (hdelivers s hreach emission hemission hsince).length_eq
  rw [hran, hevent, length_wiredBus] at hlength
  exact Nat.eq_of_mul_eq_mul_right (List.length_pos_of_ne_nil hsome)
    (hlength.trans (Nat.one_mul _).symm)

/-- **Delivery exactly once.** For any hooks and discovered handlers and any number of calls of
`init` before `run`: in all lives of the app every emission by a bootstrap hook, or after a
bootstrap phase, runs the discovered handlers of its type, each exactly once, iff there is no bus to
emit on, or no handler is discovered, or `init` is not called and no hook that the bootstrap phase
runs before `wire_handlers` may emit an event that has a handler. -/
theorem delivered_once_iff (app : EventApp U T) (inits : Nat) :
    (∀ s, Reachable app inits s → ∀ emission ∈ s.emissions, emission.SinceBootstrap →
      emission.ran.Perm (app.handlersOf emission.event)) ↔
    app.imported = false ∨ app.discovered = [] ∨ (inits = 0 ∧ EarlyQuiet app) := by
  constructor
  · intro hdelivers
    by_contra hnot
    rw [not_or, not_or, Bool.not_eq_false] at hnot
    obtain ⟨himported, hdiscovered, hnot⟩ := hnot
    have hinits : inits = 0 := by
      obtain ⟨handler, hhandler⟩ := List.exists_mem_of_ne_nil _ hdiscovered
      have hsome : app.handlersOf handler.event ≠ [] := List.ne_nil_of_mem
        (List.mem_filter.mpr ⟨hhandler, decide_eq_true rfl⟩)
      have hlate := eq_one_of_delivers hsome hdelivers
        (exists_late_emission himported inits handler.event)
      omega
    refine hnot ⟨hinits, fun own hearly event hemits => ?_⟩
    by_contra hsome
    have hwired := eq_one_of_delivers hsome hdelivers
      (exists_early_emission himported hearly inits hemits)
    omega
  · rintro (himported | hdiscovered | ⟨rfl, hquiet⟩) s hreach
    · refine emissions_induction (fun s bus emission hmade => ?_) hreach
      rw [imported_of_made hmade] at himported
      cases himported
    · refine emissions_induction (fun s bus emission hmade _ => ?_) hreach
      have hnone : app.handlersOf emission.event = [] := by
        unfold EventApp.handlersOf
        rw [hdiscovered, List.filter_nil]
      rw [ran_of_made hmade, wiredBus_eq_nil hnone, hnone]
    · intro emission hemission hsince
      rw [ran_of_earlyQuiet hquiet hreach emission hemission hsince]

/-- A cache that is warmed at bootstrap, and one event with one handler. -/
def warmedCache : EventApp String Unit where
  linkedBefore := []
  linkedAfter := [⟨.onApplicationBootstrap, "Cache", "warm", "warm"⟩]
  emits := fun run _ => run = "warm"
  imported := true
  discovered := [⟨"OnWarmed", ()⟩]

/-- `run`, with an emission by the hook that warms the cache. -/
def runAndWarm : List (AppAction Unit) := [.run, .configured true, .next, .hookEmits ()]

/-- `init`, then `run`, then an emission. -/
def initAndRun : List (AppAction Unit) :=
  [.init, .next, .hookEnds true, .next, .next,
    .run, .configured true, .next, .hookEnds true, .next, .next, .emit ()]

/-- What the cache emits when it is warmed reaches nobody, and what is emitted in an app that was
initialised before it was run reaches the handler twice. -/
theorem warmedCache_misdelivers :
    (∃ s, Reachable warmedCache 0 s ∧ ∃ emission ∈ s.emissions, emission.SinceBootstrap ∧
      emission.ran = [] ∧ ¬ emission.ran.Perm (warmedCache.handlersOf emission.event)) ∧
    (∃ s, Reachable warmedCache 1 s ∧ ∃ emission ∈ s.emissions, emission.SinceBootstrap ∧
      emission.ran = [⟨"OnWarmed", ()⟩, ⟨"OnWarmed", ()⟩] ∧
      ¬ emission.ran.Perm (warmedCache.handlersOf emission.event)) := by
  have hreach : ∀ (inits : Nat) (actions : List (AppAction Unit)) (s : AppState String Unit),
      actions.foldlM (step warmedCache) (.built warmedCache inits) = some s →
        Reachable warmedCache inits s := fun inits actions s hrun =>
    foldlM_invariant (fun _ a _ h hstep => .step a h hstep) actions .built hrun
  constructor
  · obtain ⟨s, hrun, hemitted⟩ : ∃ s, runAndWarm.foldlM (step warmedCache)
        (.built warmedCache 0) = some s ∧ s.emissions = [⟨(), [], true, false⟩] := ⟨_, rfl, rfl⟩
    refine ⟨s, hreach 0 runAndWarm s hrun, ?_⟩
    rw [hemitted]
    exact ⟨_, List.mem_cons_self, Or.inl rfl, rfl, by decide⟩
  · obtain ⟨s, hrun, hemitted⟩ : ∃ s, initAndRun.foldlM (step warmedCache)
        (.built warmedCache 1) = some s ∧
          s.emissions = [⟨(), [⟨"OnWarmed", ()⟩, ⟨"OnWarmed", ()⟩], false, true⟩] :=
      ⟨_, rfl, rfl⟩
    refine ⟨s, hreach 1 initAndRun s hrun, ?_⟩
    rw [hemitted]
    exact ⟨_, List.mem_cons_self, Or.inr rfl, rfl, by decide⟩

end Nestrs.Events
