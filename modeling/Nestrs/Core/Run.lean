import Nestrs.Core.Lifecycle
import Mathlib.Data.List.Perm.Basic
import Mathlib.Logic.Relation

/-!
# Running an app and shutting it down

Model of `App::run` (`crates/nestrs-core/src/app.rs`).

* `boot` is what happens before anything is served: every transport is configured, then the two
  init phases run. It is sequential, and an error ends `run`.
* From then on there are several tasks: one for each transport, the signal handler, and `run`
  itself, which joins the transports. `step` is one step of one of them, and the runs of the model
  are all interleavings. A transport may end at any time and in any way (`JoinSet` turns a panic
  into a `JoinError`); `join_next` returns the ends in the order they came about. Joining the first
  failure sets the cancel token, as a signal does. What a transport does about the token is its own
  business, so nothing is assumed of it.
* When all transports are joined the three shutdown phases run, with `run_phase_lenient`, and `run`
  returns the first failure.

The state keeps a record of what has happened: the transports served, their ends in order of
completion, the ends joined, the shutdown hooks that ran. A hook's thunk stands for the `Result` it
returns; `configure` likewise.

Results:
* `inv_of_reachable`: the invariant of every interleaving;
* `exists_return`: when the transports have ended, `run` returns by its own steps;
* **`shutdown_protocol`**: what a failed boot leaves out, and what holds in every reachable state
  and at the return of every run that was booted.
-/

namespace Nestrs.Core.Run

open Nestrs.Lib

variable {ε : Type}

/-- How the task of a transport ends. -/
inductive TaskEnd (ε : Type) where
  | ok
  | err (e : ε)
  | panic (message : String)

/-- What `App::run` returns as `Err`: an error of a transport, of an init hook, or the `JoinError`
of a task that panicked. -/
inductive RunError (ε : Type) where
  | transport (e : ε)
  | hook (e : HookError ε)
  | join (transport : Nat) (message : String)

/-- The failure that the end of a task is. -/
def failure : Nat × TaskEnd ε → Option (RunError ε)
  | (_, .ok) => none
  | (_, .err e) => some (.transport e)
  | (i, .panic message) => some (.join i message)

/-- An app: what configuring each transport returns, and the registry with what each hook does. -/
structure AppSetup (ε : Type) where
  configure : List (Except ε Unit)
  registry : List (LifecycleHook (Except ε Unit))

namespace AppSetup

variable (setup : AppSetup ε)

/-- What `run` does before it serves. -/
def boot : Except (RunError ε) Unit := do
  forM setup.configure fun result => result.mapError RunError.transport
  (runPhase LifecycleHook.run setup.registry .onModuleInit).2.mapError RunError.hook
  (runPhase LifecycleHook.run setup.registry .onApplicationBootstrap).2.mapError RunError.hook

/-- The transports, by their position. -/
def transports : List Nat := List.range setup.configure.length

/-- The hooks of the shutdown phases, as `run` goes through them. -/
def shutdownHooks : List (LifecycleHook (Except ε Unit)) :=
  runPhaseLenient setup.registry .onModuleDestroy ++
    runPhaseLenient setup.registry .beforeApplicationShutdown ++
    runPhaseLenient setup.registry .onApplicationShutdown

end AppSetup

/-- Where `run` is: at `join_next`, in the shutdown phases with these hooks to go, or done. -/
inductive Pc (ε : Type) where
  | joining
  | shutdown (rest : List (LifecycleHook (Except ε Unit)))
  | returned (result : Except (RunError ε) Unit)

structure RunState (ε : Type) where
  pc : Pc ε
  /-- The transports that `serve` was called on. -/
  served : List Nat
  /-- Those of them whose task has not ended. -/
  serving : List Nat
  /-- The ends of tasks, in the order they came about. -/
  ends : List (Nat × TaskEnd ε)
  /-- The ends that `join_next` has yet to return. -/
  finished : List (Nat × TaskEnd ε)
  /-- The ends it has returned. -/
  joined : List (Nat × TaskEnd ε)
  firstErr : Option (RunError ε)
  cancelled : Bool
  /-- The shutdown hooks that ran. -/
  shutdownRan : List (LifecycleHook (Except ε Unit))

/-- The state in which serving starts, or in which a failed boot has returned. -/
def start (setup : AppSetup ε) : RunState ε :=
  match setup.boot with
  | .ok () => ⟨.joining, setup.transports, setup.transports, [], [], [], none, false, []⟩
  | .error e => ⟨.returned (.error e), [], [], [], [], [], none, false, []⟩

/-- The match on what `join_next` returns. -/
def observe (s : RunState ε) (e : Nat × TaskEnd ε) : RunState ε :=
  match failure e with
  | some err => if s.firstErr.isNone then { s with firstErr := some err, cancelled := true } else s
  | none => s

/-- One step of `run`; `none` when it has returned, or awaits a transport. -/
def main (setup : AppSetup ε) (s : RunState ε) : Option (RunState ε) :=
  match s.pc with
  | .joining =>
    match s.finished with
    | e :: rest => some { observe s e with finished := rest, joined := s.joined ++ [e] }
    | [] =>
      if s.serving.isEmpty then some { s with pc := .shutdown setup.shutdownHooks } else none
  | .shutdown (hook :: rest) =>
    some { s with pc := .shutdown rest, shutdownRan := s.shutdownRan ++ [hook] }
  | .shutdown [] =>
    some { s with pc := .returned (match s.firstErr with
      | some e => .error e
      | none => .ok ()) }
  | .returned _ => none

/-- A step of `run`, a signal, or a transport that ends. -/
inductive RunAction (ε : Type) where
  | main
  | signal
  | finish (transport : Nat) (how : TaskEnd ε)

/-- One step of one of the tasks. The signal handler exists once the boot is over. -/
def step (setup : AppSetup ε) (s : RunState ε) : RunAction ε → Option (RunState ε)
  | .main => main setup s
  | .signal => if setup.boot.isOk then some { s with cancelled := true } else none
  | .finish i how =>
    if i ∈ s.serving then
      some { s with
        serving := s.serving.erase i
        ends := s.ends ++ [(i, how)]
        finished := s.finished ++ [(i, how)] }
    else none

/-- The states of all interleavings. -/
inductive Reachable (setup : AppSetup ε) : RunState ε → Prop
  | start : Reachable setup (start setup)
  | step {s s' : RunState ε} (a : RunAction ε) (h : Reachable setup s)
      (hstep : step setup s a = some s') : Reachable setup s'

variable {setup : AppSetup ε} {s s' : RunState ε}

/-- The ways a step can be one. -/
theorem step_cases {a : RunAction ε} (h : step setup s a = some s') :
    main setup s = some s' ∨
      (setup.boot.isOk = true ∧ s' = { s with cancelled := true }) ∨
      ∃ i how, i ∈ s.serving ∧ s' = { s with
        serving := s.serving.erase i
        ends := s.ends ++ [(i, how)]
        finished := s.finished ++ [(i, how)] } := by
  cases a with
  | main => exact Or.inl h
  | signal =>
    simp only [step] at h
    split at h
    · rename_i hboot
      exact Or.inr (Or.inl ⟨hboot, (Option.some.inj h).symm⟩)
    · cases h
  | finish i how =>
    simp only [step] at h
    split at h
    · rename_i hi
      exact Or.inr (Or.inr ⟨i, how, hi, (Option.some.inj h).symm⟩)
    · cases h

/-! ## The boot -/

theorem start_of_boot (h : setup.boot = .ok ()) :
    start setup = ⟨.joining, setup.transports, setup.transports, [], [], [], none, false, []⟩ := by
  unfold start
  rw [h]

theorem start_of_failed {e : RunError ε} (h : setup.boot = .error e) :
    start setup = ⟨.returned (.error e), [], [], [], [], [], none, false, []⟩ := by
  unfold start
  rw [h]

theorem runHooks_eq_ok {hooks : List (LifecycleHook (Except ε Unit))} :
    (runHooks LifecycleHook.run hooks).2 = .ok () ↔ ∀ hook ∈ hooks, hook.run = .ok () := by
  constructor
  · intro h
    induction hooks with
    | nil => exact fun hook hmem => absurd hmem List.not_mem_nil
    | cons hook hooks ih =>
      unfold runHooks at h
      cases hrun : hook.run with
      | error e =>
        rw [hrun] at h
        cases h
      | ok u =>
        rw [hrun] at h
        exact List.forall_mem_cons.mpr ⟨hrun, ih h⟩
  · intro h
    rw [runHooks_of_ok h]

/-- The boot goes through iff every configure and every init hook does. -/
theorem boot_eq_ok :
    setup.boot = .ok () ↔ (∀ result ∈ setup.configure, result = .ok ()) ∧
      ∀ hook ∈ setup.registry,
        hook.phase = .onModuleInit ∨ hook.phase = .onApplicationBootstrap → hook.run = .ok () := by
  have hphase : ∀ phase, (runPhase LifecycleHook.run setup.registry phase).2 = .ok () ↔
      ∀ hook ∈ setup.registry, hook.phase = phase → hook.run = .ok () := by
    intro phase
    unfold runPhase
    rw [runHooks_eq_ok]
    simp only [mem_hooksFor, and_imp]
  unfold AppSetup.boot
  rw [bind_eq_ok]
  constructor
  · rintro ⟨⟨⟩, hconfigure, h⟩
    rw [bind_eq_ok] at h
    obtain ⟨⟨⟩, hinit, hbootstrap⟩ := h
    rw [mapError_eq_ok, hphase] at hinit hbootstrap
    refine ⟨fun result hresult => ?_, fun hook hhook hor => ?_⟩
    · exact mapError_eq_ok.mp (forM_eq_ok.mp hconfigure result hresult)
    · rcases hor with h | h
      · exact hinit hook hhook h
      · exact hbootstrap hook hhook h
  · rintro ⟨hconfigure, hhooks⟩
    refine ⟨(), forM_eq_ok.mpr fun result hresult => ?_, ?_⟩
    · exact mapError_eq_ok.mpr (hconfigure result hresult)
    · rw [bind_eq_ok]
      refine ⟨(), ?_, ?_⟩
      · rw [mapError_eq_ok, hphase]
        exact fun hook hhook h => hhooks hook hhook (Or.inl h)
      · rw [mapError_eq_ok, hphase]
        exact fun hook hhook h => hhooks hook hhook (Or.inr h)

/-- After a failed boot nothing moves. -/
theorem eq_start_of_failed {e : RunError ε} (hboot : setup.boot = .error e)
    (h : Reachable setup s) : s = start setup := by
  induction h with
  | start => rfl
  | step a _ hstep ih =>
    subst ih
    rw [start_of_failed hboot] at hstep
    rcases step_cases hstep with hmain | ⟨hok, -⟩ | ⟨i, how, hi, -⟩
    · cases hmain
    · rw [hboot] at hok
      cases hok
    · exact absurd hi List.not_mem_nil

/-! ## The invariant -/

/-- What `run` returns, given the first failure. -/
def resultOf : Option (RunError ε) → Except (RunError ε) Unit
  | some e => .error e
  | none => .ok ()

/-- The invariant of a booted app. -/
structure Inv (setup : AppSetup ε) (s : RunState ε) : Prop where
  served : s.served = setup.transports
  /-- A transport is serving or has ended, once. -/
  tasks : (s.serving ++ s.ends.map Prod.fst).Perm setup.transports
  queue : s.ends = s.joined ++ s.finished
  firstErr : s.firstErr = s.joined.findSome? failure
  cancelled : s.firstErr.isSome = true → s.cancelled = true
  joining : s.pc = .joining → s.shutdownRan = []
  shutdown : ∀ rest, s.pc = .shutdown rest →
    s.serving = [] ∧ s.finished = [] ∧ s.shutdownRan ++ rest = setup.shutdownHooks
  returned : ∀ result, s.pc = .returned result →
    s.serving = [] ∧ s.finished = [] ∧ s.shutdownRan = setup.shutdownHooks ∧
      result = resultOf s.firstErr

theorem inv_start (hboot : setup.boot = .ok ()) : Inv setup (start setup) := by
  rw [start_of_boot hboot]
  exact {
    served := rfl
    tasks := by simp
    queue := rfl
    firstErr := rfl
    cancelled := nofun
    joining := fun _ => rfl
    shutdown := nofun
    returned := nofun }

theorem observe_frame (s : RunState ε) (e : Nat × TaskEnd ε) :
    (observe s e).pc = s.pc ∧ (observe s e).served = s.served ∧
      (observe s e).serving = s.serving ∧ (observe s e).ends = s.ends ∧
      (observe s e).shutdownRan = s.shutdownRan := by
  unfold observe
  split
  · split
    · exact ⟨rfl, rfl, rfl, rfl, rfl⟩
    · exact ⟨rfl, rfl, rfl, rfl, rfl⟩
  · exact ⟨rfl, rfl, rfl, rfl, rfl⟩

/-- Joining keeps the first failure, and takes the new one if there was none. -/
theorem firstErr_observe (s : RunState ε) (e : Nat × TaskEnd ε) :
    (observe s e).firstErr = s.firstErr.or (failure e) := by
  unfold observe
  cases hfirst : s.firstErr with
  | none => cases hfail : failure e <;> simp [hfirst]
  | some err => cases hfail : failure e <;> simp [hfirst]

/-- A failure that is kept has set the token. -/
theorem cancelled_observe {e : Nat × TaskEnd ε}
    (h : s.firstErr.isSome = true → s.cancelled = true)
    (hfirst : (observe s e).firstErr.isSome = true) : (observe s e).cancelled = true := by
  unfold observe at hfirst ⊢
  split
  · split
    · rfl
    · rename_i hsome
      refine h ?_
      cases hfirst' : s.firstErr with
      | none =>
        rw [hfirst'] at hsome
        exact absurd rfl hsome
      | some err => rfl
  · rename_i hnone
    rw [hnone] at hfirst
    exact h hfirst

/-- A step of `run` keeps the invariant. -/
theorem inv_main (h : Inv setup s) (hstep : main setup s = some s') : Inv setup s' := by
  unfold main at hstep
  split at hstep
  · rename_i hpc
    split at hstep
    · -- an end is joined
      rename_i e rest hfinished
      cases hstep
      obtain ⟨hpc', hserved, hserving, hends, hran⟩ := observe_frame s e
      have hqueue := h.queue
      rw [hfinished] at hqueue
      exact {
        served := hserved.trans h.served
        tasks := by
          show ((observe s e).serving ++ (observe s e).ends.map Prod.fst).Perm setup.transports
          rw [hserving, hends]
          exact h.tasks
        queue := by
          show (observe s e).ends = s.joined ++ [e] ++ rest
          rw [hends, hqueue, List.append_assoc]
          rfl
        firstErr := by
          show (observe s e).firstErr = (s.joined ++ [e]).findSome? failure
          rw [firstErr_observe, h.firstErr, List.findSome?_append]
          simp
        cancelled := cancelled_observe h.cancelled
        joining := fun _ => hran.trans (h.joining hpc)
        shutdown := fun rest' (hshut : (observe s e).pc = _) => by
          rw [hpc', hpc] at hshut
          cases hshut
        returned := fun result (hret : (observe s e).pc = _) => by
          rw [hpc', hpc] at hret
          cases hret }
    · -- all are joined
      rename_i hfinished
      split at hstep
      · rename_i hserving
        cases hstep
        exact {
          served := h.served
          tasks := h.tasks
          queue := h.queue
          firstErr := h.firstErr
          cancelled := h.cancelled
          joining := nofun
          shutdown := fun rest hrest => by
            cases hrest
            refine ⟨List.isEmpty_iff.mp hserving, hfinished, ?_⟩
            rw [h.joining hpc]
            rfl
          returned := nofun }
      · cases hstep
  · -- a shutdown hook runs
    rename_i hook rest hpc
    cases hstep
    obtain ⟨hserving, hfinished, hran⟩ := h.shutdown _ hpc
    exact {
      served := h.served
      tasks := h.tasks
      queue := h.queue
      firstErr := h.firstErr
      cancelled := h.cancelled
      joining := nofun
      shutdown := fun rest' hrest => by
        cases hrest
        refine ⟨hserving, hfinished, ?_⟩
        rw [← hran, List.append_assoc]
        rfl
      returned := nofun }
  · -- `run` returns
    rename_i hpc
    cases hstep
    obtain ⟨hserving, hfinished, hran⟩ := h.shutdown _ hpc
    rw [List.append_nil] at hran
    exact {
      served := h.served
      tasks := h.tasks
      queue := h.queue
      firstErr := h.firstErr
      cancelled := h.cancelled
      joining := nofun
      shutdown := nofun
      returned := fun result hresult => by
        cases hresult
        refine ⟨hserving, hfinished, hran, ?_⟩
        cases s.firstErr <;> rfl }
  · cases hstep

/-- A signal keeps it. -/
theorem inv_signal (h : Inv setup s) : Inv setup { s with cancelled := true } :=
  { h with cancelled := fun _ => rfl }

/-- A transport that ends keeps it. -/
theorem inv_finish (h : Inv setup s) {i : Nat} (hi : i ∈ s.serving) (how : TaskEnd ε) :
    Inv setup { s with
      serving := s.serving.erase i
      ends := s.ends ++ [(i, how)]
      finished := s.finished ++ [(i, how)] } where
  served := h.served
  tasks := by
    show (s.serving.erase i ++ (s.ends ++ [(i, how)]).map Prod.fst).Perm setup.transports
    rw [List.map_append, List.map_singleton]
    refine List.Perm.trans ?_ h.tasks
    rw [← List.append_assoc]
    refine (List.perm_append_singleton i _).trans ?_
    exact (List.perm_cons_erase hi).symm.append_right _
  queue := by
    show s.ends ++ [(i, how)] = s.joined ++ (s.finished ++ [(i, how)])
    rw [h.queue, List.append_assoc]
  firstErr := h.firstErr
  cancelled := h.cancelled
  joining := h.joining
  shutdown rest hpc := by
    obtain ⟨hserving, -⟩ := h.shutdown rest hpc
    rw [hserving] at hi
    exact absurd hi List.not_mem_nil
  returned result hpc := by
    obtain ⟨hserving, -⟩ := h.returned result hpc
    rw [hserving] at hi
    exact absurd hi List.not_mem_nil

/-- **The invariant** holds in every reachable state of a booted app. -/
theorem inv_of_reachable (hboot : setup.boot = .ok ()) (h : Reachable setup s) : Inv setup s := by
  induction h with
  | start => exact inv_start hboot
  | step a _ hstep ih =>
    rcases step_cases hstep with hmain | ⟨-, rfl⟩ | ⟨i, how, hi, rfl⟩
    · exact inv_main ih hmain
    · exact inv_signal ih
    · exact inv_finish ih hi how

/-! ## The return -/

/-- The steps `run` takes on its own. -/
abbrev MainSteps (setup : AppSetup ε) : RunState ε → RunState ε → Prop :=
  Relation.ReflTransGen fun a b => main setup a = some b

theorem exists_return_of_shutdown (rest : List (LifecycleHook (Except ε Unit)))
    (hpc : s.pc = .shutdown rest) :
    ∃ s' result, MainSteps setup s s' ∧ s'.pc = .returned result := by
  induction rest generalizing s with
  | nil => exact ⟨_, _, .single (by unfold main; rw [hpc]), rfl⟩
  | cons hook rest ih =>
    have hmain : main setup s =
        some { s with pc := .shutdown rest, shutdownRan := s.shutdownRan ++ [hook] } := by
      unfold main
      rw [hpc]
    obtain ⟨s', result, hsteps, hreturned⟩ := ih
      (s := { s with pc := .shutdown rest, shutdownRan := s.shutdownRan ++ [hook] }) rfl
    exact ⟨s', result, .head hmain hsteps, hreturned⟩

/-- **Termination**: when no transport is serving any more, `run` joins what there is to join, runs
the shutdown hooks and returns. -/
theorem exists_return (hserving : s.serving = []) :
    ∃ s' result, MainSteps setup s s' ∧ s'.pc = .returned result := by
  cases hpc : s.pc with
  | returned result => exact ⟨s, result, .refl, hpc⟩
  | shutdown rest => exact exists_return_of_shutdown rest hpc
  | joining =>
    -- the ends that are not joined yet, one after the other
    generalize hfinished : s.finished = finished
    induction finished generalizing s with
    | nil =>
      have hmain : main setup s = some { s with pc := .shutdown setup.shutdownHooks } := by
        unfold main
        rw [hpc, hfinished, hserving]
        rfl
      have hrest : ∃ s' result,
          MainSteps setup { s with pc := .shutdown setup.shutdownHooks } s' ∧
            s'.pc = .returned result :=
        exists_return_of_shutdown setup.shutdownHooks rfl
      obtain ⟨s', result, hsteps, hreturned⟩ := hrest
      exact ⟨s', result, .head hmain hsteps, hreturned⟩
    | cons e rest ih =>
      have hmain : main setup s =
          some { observe s e with finished := rest, joined := s.joined ++ [e] } := by
        unfold main
        rw [hpc, hfinished]
      obtain ⟨hpc', -, hserving', -⟩ := observe_frame s e
      obtain ⟨s', result, hsteps, hreturned⟩ := ih
        (s := { observe s e with finished := rest, joined := s.joined ++ [e] })
        (hserving'.trans hserving) (hpc'.trans hpc) rfl
      exact ⟨s', result, .head hmain hsteps, hreturned⟩

/-! ## The protocol -/

/-- Every configure call and every init hook succeeds. -/
def Boots (setup : AppSetup ε) : Prop :=
  (∀ result ∈ setup.configure, result = .ok ()) ∧
    ∀ hook ∈ setup.registry,
      hook.phase = .onModuleInit ∨ hook.phase = .onApplicationBootstrap → hook.run = .ok ()

/-- The list is the hooks of the phase, each once, in `(provider, method)` order. -/
def PhaseOrder (setup : AppSetup ε) (phase : LifecyclePhase)
    (hooks : List (LifecycleHook (Except ε Unit))) : Prop :=
  hooks.Perm (setup.registry.filter fun hook => hook.phase = phase) ∧ hooks.Pairwise KeyLe

theorem phaseOrder_lenient (setup : AppSetup ε) (phase : LifecyclePhase) :
    PhaseOrder setup phase (runPhaseLenient setup.registry phase) :=
  ⟨hooksFor_perm setup.registry phase, hooksFor_pairwise setup.registry phase⟩

theorem ends_perm_of_inv (h : Inv setup s) (hserving : s.serving = []) :
    (s.ends.map Prod.fst).Perm setup.transports := by
  have htasks := h.tasks
  rw [hserving, List.nil_append] at htasks
  exact htasks

/-- **The shutdown protocol of `App::run`.** Whatever the transports do and in whatever order, with
signals at any point, in every reachable state:
* after a configure call or an init hook that failed nothing is served and no shutdown hook runs;
* otherwise the failure kept is the first one joined, and the token is set with it;
* a shutdown hook has run only if every transport has ended;
* at the return every transport has ended, the result is the first failure in the order of
  completion, if there is one, and the hooks of the three phases have run, phase after phase, each
  once and in `(provider, method)` order, whatever they returned;
* and once no transport is serving `run` does return. -/
theorem shutdown_protocol (setup : AppSetup ε) (s : RunState ε) (h : Reachable setup s) :
    (¬ Boots setup → s.served = [] ∧ s.shutdownRan = [] ∧ ∃ e, s.pc = .returned (.error e)) ∧
    (Boots setup →
      (s.firstErr = s.joined.findSome? failure ∧
        (s.firstErr.isSome = true → s.cancelled = true)) ∧
      (s.shutdownRan ≠ [] → (s.ends.map Prod.fst).Perm setup.transports) ∧
      (∀ result, s.pc = .returned result →
        (s.ends.map Prod.fst).Perm setup.transports ∧
        result = resultOf (s.ends.findSome? failure) ∧
        ∃ destroy before after, s.shutdownRan = destroy ++ before ++ after ∧
          PhaseOrder setup .onModuleDestroy destroy ∧
          PhaseOrder setup .beforeApplicationShutdown before ∧
          PhaseOrder setup .onApplicationShutdown after) ∧
      (s.serving = [] → ∃ s' result, MainSteps setup s s' ∧ s'.pc = .returned result)) := by
  constructor
  · intro hfails
    cases hboot : setup.boot with
    | ok u => exact absurd (boot_eq_ok.mp hboot) hfails
    | error e =>
      rw [eq_start_of_failed hboot h, start_of_failed hboot]
      exact ⟨rfl, rfl, e, rfl⟩
  · intro hboots
    have hinv := inv_of_reachable (boot_eq_ok.mpr hboots) h
    refine ⟨⟨hinv.firstErr, hinv.cancelled⟩, fun hran => ?_, fun result hpc => ?_,
      exists_return⟩
    · cases hpc : s.pc with
      | joining => exact absurd (hinv.joining hpc) hran
      | shutdown rest => exact ends_perm_of_inv hinv (hinv.shutdown rest hpc).1
      | returned result => exact ends_perm_of_inv hinv (hinv.returned result hpc).1
    · obtain ⟨hserving, hfinished, hran, hresult⟩ := hinv.returned result hpc
      have hjoined : s.ends = s.joined := by
        rw [hinv.queue, hfinished, List.append_nil]
      refine ⟨ends_perm_of_inv hinv hserving, ?_, ?_⟩
      · rw [hresult, hinv.firstErr, hjoined]
      · exact ⟨_, _, _, hran, phaseOrder_lenient setup _, phaseOrder_lenient setup _,
          phaseOrder_lenient setup _⟩

/-! ## Two transports, one of which fails -/

/-- The state after these steps, if they can be taken. -/
def after (setup : AppSetup ε) (actions : List (RunAction ε)) : Option (RunState ε) :=
  actions.foldlM (step setup) (start setup)

/-- A pool that is closed and a cache whose flush fails. -/
def poolAndCache : AppSetup String where
  configure := [.ok (), .ok ()]
  registry := [⟨.onModuleDestroy, "Pool", "close", .ok ()⟩,
    ⟨.onModuleDestroy, "Cache", "flush", .error "gone"⟩]

/-- The second transport fails, the first ends, and `run` goes on to its end. -/
def failedRun : List (RunAction String) :=
  [.finish 1 (.err "bind"), .main, .finish 0 .ok, .main, .main, .main, .main, .main]

theorem failedRun_ends :
    ∃ s, after poolAndCache failedRun = some s ∧
      s.pc = .returned (.error (.transport "bind")) ∧
      s.shutdownRan.map LifecycleHook.provider = ["Cache", "Pool"] ∧
      ∃ destroy before after, s.shutdownRan = destroy ++ before ++ after ∧
        PhaseOrder poolAndCache .onModuleDestroy destroy ∧
        PhaseOrder poolAndCache .beforeApplicationShutdown before ∧
        PhaseOrder poolAndCache .onApplicationShutdown after := by
  have hboots : Boots poolAndCache := by
    refine ⟨by decide, fun hook hhook hphase => ?_⟩
    simp only [poolAndCache, List.mem_cons, List.not_mem_nil, or_false] at hhook
    rcases hhook with rfl | rfl
    · rfl
    · rcases hphase with h | h
      · cases h
      · cases h
  obtain ⟨s, hrun, hpc, hran⟩ : ∃ s, after poolAndCache failedRun = some s ∧
      s.pc = .returned (.error (.transport "bind")) ∧
      s.shutdownRan.map LifecycleHook.provider = ["Cache", "Pool"] :=
    ⟨_, rfl, rfl, by decide⟩
  have hreach : Reachable poolAndCache s :=
    foldlM_invariant (fun _ a _ h hstep => .step a h hstep) failedRun .start hrun
  exact ⟨s, hrun, hpc, hran,
    (((shutdown_protocol poolAndCache s hreach).2 hboots).2.2.1 _ hpc).2.2⟩

end Nestrs.Core.Run
