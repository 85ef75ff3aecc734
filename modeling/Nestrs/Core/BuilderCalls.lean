import Nestrs.Core.App

/-!
# The calls of an application builder

Model of the methods of `AppBuilder` (`crates/nestrs-core/src/app.rs`) as a state machine, and of
its `build` as a run that can be watched. `provide`, `provide_arc` and `provide_dyn` put a value
into the inner `ContainerBuilder` at once; `provide_factory` queues a factory there; `module` and
the two override methods only note what `build` is to do. `App.lean` starts from the four lists the
calls leave; here is that any sequence of calls leaves them, so that only the order within each of
the four kinds counts.

A `Boot` is a run of `build`: the factories that were awaited, each with the snapshot it was given,
the container the register phase began with, the root modules whose `register` was called, and the
result.

Results:
* `state_eq`: the state after any calls, by the calls of each kind;
* `boot_result`: the result of the run is that of `AppBuilder.build`;
* `runTraced_spec`: what the factory phase runs, and what it leaves;
* **`builder_phases`**: calls that agree kind by kind boot alike, and the phases of every boot.
-/

namespace Nestrs.Core

open Nestrs.Lib

/-! ## The calls -/

/-- A call of a builder method. A trait object is keyed by the `TypeId` of its `Arc`. -/
inductive Call (prog : Program) where
  | provide (key : TypeId) (value : AnyArc)
  | provideArc (key : TypeId) (value : AnyArc)
  | provideDyn (key : TypeId) (value : AnyArc)
  | provideFactory (factory : Factory)
  | module (id : TypeId) (declared : id ∈ prog.modules.map ModuleDecl.id)
  | overrideValue (key : TypeId) (value : AnyArc)
  | overrideDyn (key : TypeId) (value : AnyArc)

/-- The four kinds of calls. -/
inductive CallKind where
  | seed
  | factory
  | module
  | override
deriving DecidableEq, Repr

variable {prog : Program}

def Call.kind : Call prog → CallKind
  | provide _ _ | provideArc _ _ | provideDyn _ _ => .seed
  | provideFactory _ => .factory
  | module _ _ => .module
  | overrideValue _ _ | overrideDyn _ _ => .override

/-- `AppBuilder`, as the source has it. -/
structure BuilderState where
  builder : ContainerBuilder
  modules : List TypeId
  overrides : List (TypeId × AnyArc)

/-- `AppBuilder::new`. -/
def BuilderState.new : BuilderState := ⟨ContainerBuilder.empty, [], []⟩

/-- The methods of `AppBuilder`. -/
def BuilderState.call (s : BuilderState) : Call prog → BuilderState
  | .provide key value | .provideArc key value | .provideDyn key value =>
    { s with builder := { s.builder with container := s.builder.container.provide key value } }
  | .provideFactory factory =>
    { s with builder := { s.builder with factories := s.builder.factories ++ [factory] } }
  | .module id _ => { s with modules := s.modules ++ [id] }
  | .overrideValue key value | .overrideDyn key value =>
    { s with overrides := s.overrides ++ [(key, value)] }

/-- The state after a sequence of calls. -/
def state (calls : List (Call prog)) : BuilderState := calls.foldl BuilderState.call .new

/-! ## The boot -/

/-- The factory phase, with the factories it awaits and the snapshot each is given. -/
def runTraced : List Factory → Container → List (Factory × Container) × Except String Container
  | [], c => ([], .ok c)
  | f :: fs, c =>
    if c.contains f.key then runTraced fs c
    else match f.run c with
      | .error e => ([(f, c)], .error e)
      | .ok value =>
        let (ran, out) := runTraced fs (c.provide f.key value)
        ((f, c) :: ran, out)

/-- The register phase, with the root modules whose `register` it calls. -/
def registerTraced (prog : Program) :
    List TypeId → ContainerBuilder → List TypeId × Except Stop ContainerBuilder
  | [], builder => ([], .ok builder)
  | id :: ids, builder =>
    match registerModule prog prog.modules.length id builder with
    | .error stop => ([id], .error stop)
    | .ok builder =>
      let (called, out) := registerTraced prog ids builder
      (id :: called, out)

/-- A run of `build`. -/
structure Boot where
  ran : List (Factory × Container)
  before : Option Container
  registered : List TypeId
  result : Except BootError Container

/-- `AppBuilder::build`. -/
def BuilderState.boot (s : BuilderState) (prog : Program) (order : HashOrder) : Boot :=
  match collectModules prog s.modules s.builder with
  | .error stop => ⟨[], none, [], .error (.panic stop)⟩
  | .ok builder =>
    match runTraced builder.factories builder.container with
    | (ran, .error e) => ⟨ran, none, [], .error (.factory e)⟩
    | (ran, .ok container) =>
      let (registered, out) :=
        registerTraced prog s.modules { builder with container, factories := [] }
      ⟨ran, some container, registered, do
        let builder ← out.mapError .panic
        let result := provideAll s.overrides builder.container
        (validateAccessGraph prog.descriptors order s.modules container.contains).mapError .access
        (validateResolverMembership prog.descriptors order s.modules prog.resolvers).mapError
          .membership
        .ok result⟩

/-! ## The state by the calls of each kind -/

namespace Call

def seed : Call prog → Option (TypeId × AnyArc)
  | provide key value | provideArc key value | provideDyn key value => some (key, value)
  | _ => none

def factory : Call prog → Option Factory
  | provideFactory factory => some factory
  | _ => none

def root : Call prog → Option TypeId
  | module id _ => some id
  | _ => none

def override : Call prog → Option (TypeId × AnyArc)
  | overrideValue key value | overrideDyn key value => some (key, value)
  | _ => none

end Call

/-- The builder of `App.lean` with what the calls put there. -/
def appOf (calls : List (Call prog)) : AppBuilder prog where
  seeds := calls.filterMap Call.seed
  factories := calls.filterMap Call.factory
  modules := calls.filterMap Call.root
  overrides := calls.filterMap Call.override
  linked r hr := by
    obtain ⟨call, -, hroot⟩ := List.mem_filterMap.mp hr
    cases call with
    | module id declared =>
      cases hroot
      exact declared
    | _ => exact nomatch hroot

theorem foldl_call (calls : List (Call prog)) (s : BuilderState) :
    calls.foldl BuilderState.call s =
      { builder := { s.builder with
          container := provideAll (calls.filterMap Call.seed) s.builder.container
          factories := s.builder.factories ++ calls.filterMap Call.factory }
        modules := s.modules ++ calls.filterMap Call.root
        overrides := s.overrides ++ calls.filterMap Call.override } := by
  induction calls generalizing s with
  | nil => simp [provideAll]
  | cons call calls ih =>
    rw [List.foldl_cons, ih]
    cases call <;>
      simp [BuilderState.call, provideAll, Call.seed, Call.factory, Call.root, Call.override,
        List.filterMap_cons]

/-- **The state after any calls** is what its calls of each kind leave. -/
theorem state_eq (calls : List (Call prog)) :
    state calls = ⟨(appOf calls).builder, (appOf calls).modules, (appOf calls).overrides⟩ := by
  unfold state
  rw [foldl_call]
  simp [BuilderState.new, ContainerBuilder.empty, appOf, AppBuilder.builder, AppBuilder.container]

/-- The calls agree kind by kind: one is a reordering of the other that keeps the order within each
kind. -/
def SameKinds (calls calls' : List (Call prog)) : Prop :=
  ∀ kind, (calls.filter fun c => c.kind = kind) = calls'.filter fun c => c.kind = kind

theorem filterMap_eq_of_kind {α : Type} {p : Call prog → Option α} {kind : CallKind}
    (hp : ∀ c, c.kind ≠ kind → p c = none) (calls : List (Call prog)) :
    calls.filterMap p = (calls.filter fun c => c.kind = kind).filterMap p := by
  induction calls with
  | nil => rfl
  | cons c calls ih =>
    by_cases hc : c.kind = kind
    · rw [List.filter_cons_of_pos (by simpa using hc), List.filterMap_cons, List.filterMap_cons, ih]
    · rw [List.filter_cons_of_neg (by simpa using hc), List.filterMap_cons_none (hp c hc), ih]

theorem state_of_sameKinds {calls calls' : List (Call prog)} (h : SameKinds calls calls') :
    state calls = state calls' := by
  have hkind : ∀ {α : Type} {p : Call prog → Option α} (kind : CallKind),
      (∀ c, c.kind ≠ kind → p c = none) → calls.filterMap p = calls'.filterMap p := by
    intro α p kind hp
    rw [filterMap_eq_of_kind hp calls, filterMap_eq_of_kind hp calls', h kind]
  have hseed : calls.filterMap Call.seed = calls'.filterMap Call.seed := by
    refine hkind .seed fun c hc => ?_
    cases c <;> first | rfl | exact absurd rfl hc
  have hfactory : calls.filterMap Call.factory = calls'.filterMap Call.factory := by
    refine hkind .factory fun c hc => ?_
    cases c <;> first | rfl | exact absurd rfl hc
  have hroot : calls.filterMap Call.root = calls'.filterMap Call.root := by
    refine hkind .module fun c hc => ?_
    cases c <;> first | rfl | exact absurd rfl hc
  have hoverride : calls.filterMap Call.override = calls'.filterMap Call.override := by
    refine hkind .override fun c hc => ?_
    cases c <;> first | rfl | exact absurd rfl hc
  unfold state
  rw [foldl_call, foldl_call, hseed, hfactory, hroot, hoverride]

/-! ## The factory phase -/

theorem snd_runTraced (fs : List Factory) (c : Container) :
    (runTraced fs c).2 = runFactories fs c := by
  induction fs generalizing c with
  | nil => rfl
  | cons f fs ih =>
    rw [runTraced, runFactories]
    by_cases hc : c.contains f.key = true
    · rw [if_pos hc, if_pos hc, ih]
    · rw [if_neg hc, if_neg hc]
      cases f.run c with
      | error e => rfl
      | ok value => exact ih _

theorem get_provide_of_eq (c : Container) (key : TypeId) (value : AnyArc) :
    (c.provide key value).get key = some value := if_pos rfl

theorem get_provide_of_ne (c : Container) {key k : TypeId} (value : AnyArc) (h : k ≠ key) :
    (c.provide key value).get k = c.get k := if_neg h

theorem contains_of_get {c : Container} {k : TypeId} {v : AnyArc} (h : c.get k = some v) :
    c.contains k = true := by
  unfold Container.contains
  unfold Container.get at h
  rw [h]
  rfl

/-- A factory that was awaited with this snapshot, and returned the value. -/
def Returned (e : Factory × Container) (v : AnyArc) : Prop := e.1.run e.2 = .ok v

/-- What a run of the factory phase over a queue has done. -/
structure FactoryPhase (fs : List Factory) (c : Container)
    (run : List (Factory × Container) × Except String Container) : Prop where
  /-- Only queued factories run, and none whose key was there. -/
  queued : ∀ e ∈ run.1, e.1 ∈ fs ∧ c.contains e.1.key = false
  /-- At most one runs for a key. -/
  once : (run.1.map fun e => e.1.key).Nodup
  /-- Each sees what was there and what the factories before it have returned. -/
  sees : ∀ pre e post, run.1 = pre ++ e :: post →
    (∀ k v, c.get k = some v → e.2.get k = some v) ∧
      ∀ g ∈ pre, ∃ v, Returned g v ∧ e.2.get g.1.key = some v
  /-- A phase that succeeds keeps what was there. -/
  kept : ∀ c', run.2 = .ok c' → ∀ k v, c.get k = some v → c'.get k = some v
  /-- For any other key it leaves the output of the first factory queued for it. -/
  first : ∀ c', run.2 = .ok c' → ∀ k, c.get k = none →
    (∀ f, fs.find? (fun f => f.key = k) = some f →
      ∃ e ∈ run.1, e.1 = f ∧ ∃ v, Returned e v ∧ c'.get k = some v) ∧
    (fs.find? (fun f => f.key = k) = none → c'.get k = none)
  /-- It fails with the error of the factory it awaited last. -/
  fails : ∀ message, run.2 = .error message →
    ∃ pre e, run.1 = pre ++ [e] ∧ e.1.run e.2 = .error message
  /-- Every factory that ran in a phase that succeeds has returned a value. -/
  returned : ∀ c', run.2 = .ok c' → ∀ e ∈ run.1, ∃ v, Returned e v

theorem factoryPhase_skip {f : Factory} {fs : List Factory} {c : Container}
    {run : List (Factory × Container) × Except String Container} (hc : c.contains f.key = true)
    (h : FactoryPhase fs c run) : FactoryPhase (f :: fs) c run where
  queued e he := ⟨List.mem_cons_of_mem f (h.queued e he).1, (h.queued e he).2⟩
  once := h.once
  sees := h.sees
  kept := h.kept
  first c' hok k hk := by
    have hne : f.key ≠ k := by
      rintro rfl
      rw [Container.get_eq_none.mp hk] at hc
      exact absurd hc Bool.false_ne_true
    rw [List.find?_cons_of_neg (by simpa using hne)]
    exact h.first c' hok k hk
  fails := h.fails
  returned := h.returned

theorem factoryPhase_error {f : Factory} {fs : List Factory} {c : Container} {message : String}
    (hc : c.contains f.key = false) (hrun : f.run c = .error message) :
    FactoryPhase (f :: fs) c ([(f, c)], .error message) where
  queued e he := by
    obtain rfl := List.mem_singleton.mp he
    exact ⟨List.mem_cons_self, hc⟩
  once := List.nodup_singleton _
  sees pre e post h := by
    obtain ⟨rfl, rfl, rfl⟩ : pre = [] ∧ e = (f, c) ∧ post = [] := by
      cases pre with
      | nil =>
        injection h with he hpost
        exact ⟨rfl, he.symm, hpost.symm⟩
      | cons g pre =>
        injection h with _ hrest
        exact absurd hrest.symm (by simp)
    exact ⟨fun _ _ hk => hk, fun g hg => absurd hg List.not_mem_nil⟩
  kept c' h := by cases h
  first c' h := by cases h
  fails message' h := by
    cases h
    exact ⟨[], (f, c), rfl, hrun⟩
  returned c' h := by cases h

theorem factoryPhase_run {f : Factory} {fs : List Factory} {c : Container} {value : AnyArc}
    {run : List (Factory × Container) × Except String Container} (hc : c.contains f.key = false)
    (hrun : f.run c = .ok value) (h : FactoryPhase fs (c.provide f.key value) run) :
    FactoryPhase (f :: fs) c ((f, c) :: run.1, run.2) := by
  have hthere : (c.provide f.key value).get f.key = some value := get_provide_of_eq c f.key value
  -- what was there before is there after the factory's output
  have hkept : ∀ k v, c.get k = some v → (c.provide f.key value).get k = some v := by
    intro k v hk
    have hne : k ≠ f.key := by
      rintro rfl
      rw [contains_of_get hk] at hc
      exact absurd hc (Bool.false_ne_true ∘ Eq.symm)
    rw [get_provide_of_ne c value hne]
    exact hk
  refine ⟨?_, ?_, ?_, ?_, ?_, ?_, ?_⟩
  · intro e he
    rcases List.mem_cons.mp he with rfl | he
    · exact ⟨List.mem_cons_self, hc⟩
    · obtain ⟨hmem, hfresh⟩ := h.queued e he
      refine ⟨List.mem_cons_of_mem f hmem, ?_⟩
      by_contra hno
      have hcontains := (contains_provide c f.key value e.1.key).mpr (Or.inl (by simpa using hno))
      rw [hfresh] at hcontains
      exact absurd hcontains Bool.false_ne_true
  · rw [List.map_cons, List.nodup_cons]
    refine ⟨fun hmem => ?_, h.once⟩
    obtain ⟨e, he, hkey⟩ := List.mem_map.mp hmem
    have hfresh := (h.queued e he).2
    rw [hkey, contains_of_get hthere] at hfresh
    exact absurd hfresh (Bool.false_ne_true ∘ Eq.symm)
  · intro pre e post heq
    cases pre with
    | nil =>
      injection heq with he hpost
      subst he
      exact ⟨fun _ _ hk => hk, fun g hg => absurd hg List.not_mem_nil⟩
    | cons g pre =>
      injection heq with hg hrest
      obtain ⟨hseen, houtputs⟩ := h.sees pre e post hrest
      refine ⟨fun k v hk => hseen k v (hkept k v hk), fun g' hg' => ?_⟩
      rcases List.mem_cons.mp hg' with rfl | hg'
      · rw [← hg]
        exact ⟨value, hrun, hseen f.key value hthere⟩
      · exact houtputs g' hg'
  · intro c' hok k v hk
    exact h.kept c' hok k v (hkept k v hk)
  · intro c' hok k hk
    by_cases hkey : f.key = k
    · subst hkey
      rw [List.find?_cons_of_pos (by simp)]
      refine ⟨fun g hg => ?_, fun hnone => ?_⟩
      · cases hg
        exact ⟨(f, c), List.mem_cons_self, rfl, value, hrun, h.kept c' hok f.key value hthere⟩
      · cases hnone
    · rw [List.find?_cons_of_neg (by simpa using hkey)]
      have hnone : (c.provide f.key value).get k = none := by
        rw [get_provide_of_ne c value (Ne.symm hkey)]
        exact hk
      obtain ⟨hfirst, hnever⟩ := h.first c' hok k hnone
      refine ⟨fun g hg => ?_, hnever⟩
      obtain ⟨e, he, hrest⟩ := hfirst g hg
      exact ⟨e, List.mem_cons_of_mem _ he, hrest⟩
  · intro message herror
    obtain ⟨pre, e, hran, hfailed⟩ := h.fails message herror
    refine ⟨(f, c) :: pre, e, ?_, hfailed⟩
    show (f, c) :: run.1 = (f, c) :: (pre ++ [e])
    rw [hran]
  · intro c' hok e he
    rcases List.mem_cons.mp he with rfl | he
    · exact ⟨value, hrun⟩
    · exact h.returned c' hok e he

/-- **The factory phase**, over any queue and any seeds. -/
theorem runTraced_spec (fs : List Factory) (c : Container) :
    FactoryPhase fs c (runTraced fs c) := by
  induction fs generalizing c with
  | nil =>
    refine ⟨fun e he => absurd he List.not_mem_nil, List.nodup_nil, fun pre e post h => ?_,
      fun c' h k v hk => ?_, fun c' h k hk => ⟨fun f hf => ?_, fun _ => ?_⟩, fun message h => ?_,
      fun c' h e he => absurd he List.not_mem_nil⟩
    · exact absurd h.symm (by simp [runTraced])
    · cases h
      exact hk
    · cases hf
    · cases h
      exact hk
    · cases h
  | cons f fs ih =>
    rw [runTraced]
    by_cases hc : c.contains f.key = true
    · rw [if_pos hc]
      exact factoryPhase_skip hc (ih c)
    · have hfresh : c.contains f.key = false := by simpa using hc
      rw [if_neg hc]
      cases hrun : f.run c with
      | error message => exact factoryPhase_error hfresh hrun
      | ok value => exact factoryPhase_run hfresh hrun (ih _)

/-! ## The phases of a boot -/

theorem snd_registerTraced (ids : List TypeId) (builder : ContainerBuilder) :
    (registerTraced prog ids builder).2 = registerModules prog ids builder := by
  unfold registerModules
  induction ids generalizing builder with
  | nil => rfl
  | cons id ids ih =>
    rw [registerTraced, List.foldlM_cons]
    cases registerModule prog prog.modules.length id builder with
    | error stop => rfl
    | ok builder => exact ih builder

/-- A boot after any calls, by its factory phase. -/
theorem boot_cases (calls : List (Call prog)) (order : HashOrder) :
    (∃ message, (runTraced (appOf calls).queued (appOf calls).container).2 = .error message ∧
      (state calls).boot prog order =
        ⟨(runTraced (appOf calls).queued (appOf calls).container).1, none, [],
          .error (.factory message)⟩) ∨
    ∃ c₀ registered result,
      (runTraced (appOf calls).queued (appOf calls).container).2 = .ok c₀ ∧
      (state calls).boot prog order =
        ⟨(runTraced (appOf calls).queued (appOf calls).container).1, some c₀, registered,
          result⟩ := by
  obtain ⟨collected, hcollect⟩ := collectModules_eq (appOf calls).linked (appOf calls).builder rfl
  rcases hrun : runTraced (appOf calls).queued (appOf calls).container with ⟨ran, out⟩
  have hrun' : runTraced ((appOf calls).builder.factories ++
      (prog.schedule (appOf calls).modules).flatMap factoriesOf)
      (appOf calls).builder.container = (ran, out) := hrun
  rw [state_eq]
  unfold BuilderState.boot
  simp only [hcollect, hrun']
  cases out with
  | error message => exact Or.inl ⟨message, rfl, rfl⟩
  | ok c₀ => exact Or.inr ⟨c₀, _, _, rfl, rfl⟩

/-- The result of the run is that of `AppBuilder.build`. -/
theorem boot_result (calls : List (Call prog)) (order : HashOrder) :
    ((state calls).boot prog order).result = (appOf calls).build order := by
  obtain ⟨collected, hcollect⟩ := collectModules_eq (appOf calls).linked (appOf calls).builder rfl
  have hok : ∀ {ε ε' α β : Type} (f : ε → ε') (a : α) (g : α → Except ε' β),
      ((Except.ok a : Except ε α).mapError f >>= g) = g a := fun _ _ _ => rfl
  rw [state_eq]
  unfold BuilderState.boot AppBuilder.build
  simp only [hcollect, hok, ← snd_runTraced, ← snd_registerTraced]
  rcases runTraced _ _ with ⟨ran, out⟩
  cases out with
  | error message => rfl
  | ok c₀ => rfl

/-- The last value seeded under the key. -/
def lastSeed (seeds : List (TypeId × AnyArc)) (k : TypeId) : Option AnyArc :=
  (seeds.reverse.find? fun v => v.1 = k).map Prod.snd

/-- Values provided in order: the last one of a key counts. -/
theorem provideAll_get (values : List (TypeId × AnyArc)) (c : Container) (k : TypeId) :
    (provideAll values c).get k = (lastSeed values k).or (c.get k) := by
  unfold provideAll lastSeed
  induction values using List.reverseRecOn with
  | nil => rfl
  | append_singleton values v ih =>
    rw [List.foldl_append, List.reverse_append, List.foldl_cons, List.foldl_nil]
    by_cases hk : v.1 = k
    · subst hk
      rw [get_provide_of_eq]
      simp
    · rw [get_provide_of_ne _ _ (Ne.symm hk), ih]
      simp [hk]

theorem get_container (app : AppBuilder prog) (k : TypeId) :
    app.container.get k = lastSeed app.seeds k := by
  unfold AppBuilder.container
  rw [provideAll_get]
  exact Option.or_none

/-- **The phases of a boot** over seeds and a queue of factories. -/
structure Phases (seeds : List (TypeId × AnyArc)) (queue : List Factory) (boot : Boot) : Prop where
  /-- At most one factory runs for a key. -/
  once : (boot.ran.map fun e => e.1.key).Nodup
  /-- None runs for a seeded key. -/
  unseeded : ∀ e ∈ boot.ran, lastSeed seeds e.1.key = none
  /-- Each sees all seeds and the outputs of the factories run before it. -/
  sees : ∀ pre e post, boot.ran = pre ++ e :: post →
    (∀ k v, lastSeed seeds k = some v → e.2.get k = some v) ∧
      ∀ g ∈ pre, ∃ v, Returned g v ∧ e.2.get g.1.key = some v
  /-- The register phase finds under a key its last seed. -/
  seeded : ∀ c₀, boot.before = some c₀ → ∀ k v, lastSeed seeds k = some v → c₀.get k = some v
  /-- Under any other key it finds the output of the first factory queued for it, if any. -/
  built : ∀ c₀, boot.before = some c₀ → ∀ k, lastSeed seeds k = none →
    (∀ f, queue.find? (fun f => f.key = k) = some f →
      ∃ e ∈ boot.ran, e.1 = f ∧ ∃ v, Returned e v ∧ c₀.get k = some v) ∧
    (queue.find? (fun f => f.key = k) = none → c₀.get k = none)
  /-- A factory that fails is the last that runs; no module is registered, and the boot fails with
  its error. -/
  aborts : ∀ e ∈ boot.ran, ∀ message, e.1.run e.2 = .error message →
    (∃ pre, boot.ran = pre ++ [e]) ∧ boot.before = none ∧ boot.registered = [] ∧
      boot.result = .error (.factory message)
  /-- The register phase is reached unless a factory fails. -/
  reached : boot.before = none → ∃ e ∈ boot.ran, ∃ message, e.1.run e.2 = .error message

/-- The phases of the boot after any calls, whose queue is the root factories and then those the
modules collect. -/
theorem phases_boot (calls : List (Call prog)) (order : HashOrder) :
    Phases (calls.filterMap Call.seed)
      (calls.filterMap Call.factory ++
        (prog.schedule (calls.filterMap Call.root)).flatMap factoriesOf)
      ((state calls).boot prog order) := by
  have hget : ∀ k, (appOf calls).container.get k = lastSeed (calls.filterMap Call.seed) k :=
    get_container (appOf calls)
  have hphase := runTraced_spec (appOf calls).queued (appOf calls).container
  have hunseeded : ∀ e ∈ (runTraced (appOf calls).queued (appOf calls).container).1,
      lastSeed (calls.filterMap Call.seed) e.1.key = none := by
    intro e he
    rw [← hget, Container.get_eq_none]
    exact (hphase.queued e he).2
  have hsees : ∀ pre e post,
      (runTraced (appOf calls).queued (appOf calls).container).1 = pre ++ e :: post →
        (∀ k v, lastSeed (calls.filterMap Call.seed) k = some v → e.2.get k = some v) ∧
          ∀ g ∈ pre, ∃ v, Returned g v ∧ e.2.get g.1.key = some v := by
    intro pre e post hran
    obtain ⟨hseen, houtputs⟩ := hphase.sees pre e post hran
    exact ⟨fun k v hk => hseen k v ((hget k).trans hk), houtputs⟩
  rcases boot_cases calls order with ⟨message, hout, hboot⟩ | ⟨c₀, registered, result, hout, hboot⟩
  · obtain ⟨pre, e, hran, hfailed⟩ := hphase.fails message hout
    rw [hboot]
    refine ⟨hphase.once, hunseeded, hsees, fun c₀ h => ?_, fun c₀ h => ?_, ?_, ?_⟩
    · cases h
    · cases h
    · intro e' he' message' hfailed'
      -- the factories before the last one have returned
      have hlast : e' = e := by
        have he'' := he'
        rw [hran] at he''
        rcases List.mem_append.mp he'' with hpre | hlast
        · obtain ⟨v, hreturned, -⟩ := (hphase.sees pre e [] hran).2 e' hpre
          unfold Returned at hreturned
          rw [hfailed'] at hreturned
          cases hreturned
        · exact List.mem_singleton.mp hlast
      subst hlast
      rw [hfailed] at hfailed'
      cases hfailed'
      exact ⟨⟨pre, hran⟩, rfl, rfl, rfl⟩
    · intro _
      refine ⟨e, ?_, message, hfailed⟩
      show e ∈ (runTraced (appOf calls).queued (appOf calls).container).1
      rw [hran]
      exact List.mem_append_right _ (List.mem_singleton_self e)
  · rw [hboot]
    refine ⟨hphase.once, hunseeded, hsees, ?_, ?_, ?_, fun h => ?_⟩
    · intro c h k v hk
      cases h
      exact hphase.kept c₀ hout k v ((hget k).trans hk)
    · intro c h k hk
      cases h
      exact hphase.first c₀ hout k ((hget k).trans hk)
    · intro e he message hfailed
      obtain ⟨v, hreturned⟩ := hphase.returned c₀ hout e he
      unfold Returned at hreturned
      rw [hfailed] at hreturned
      cases hreturned
    · cases h

/-- **The phases of `AppBuilder` are independent of call order.** Calls that agree kind by kind boot
alike: the same factories run on the same snapshots, the same modules are registered, and the result
is the same container or the same error. And every boot goes through its phases. -/
theorem builder_phases (prog : Program) (order : HashOrder) (calls : List (Call prog)) :
    (∀ calls', SameKinds calls calls' →
      (state calls').boot prog order = (state calls).boot prog order) ∧
    Phases (calls.filterMap Call.seed)
      (calls.filterMap Call.factory ++
        (prog.schedule (calls.filterMap Call.root)).flatMap factoriesOf)
      ((state calls).boot prog order) := by
  refine ⟨fun calls' h => ?_, phases_boot calls order⟩
  rw [state_of_sameKinds h]

/-- A seed, the root module, a factory that hands on the seed, and an override of the seed. -/
def reportsCalls : List (Call reportsProgram) :=
  [.provide 20 (.value 1), .module 1 (by decide),
    .provideFactory ⟨21, fun c => .ok ((c.get 20).getD (.value 0))⟩, .overrideValue 20 (.value 2)]

/-- Called the other way round, they boot alike: the factory sees the seed, and the override is
last. -/
theorem reportsCalls_reverse :
    (state reportsCalls.reverse).boot reportsProgram .newestFirst =
        (state reportsCalls).boot reportsProgram .newestFirst ∧
      (((state reportsCalls).boot reportsProgram .newestFirst).result.toOption).map
        (fun c => (c.get 20, c.get 21)) = some (some (.value 2), some (.value 1)) :=
  ⟨(builder_phases reportsProgram .newestFirst reportsCalls).1 reportsCalls.reverse
    fun kind => by cases kind <;> rfl, by decide⟩

end Nestrs.Core
