import Nestrs.Core.Fixpoint
import Nestrs.Lib.Visit

/-!
# Modules: the collect and the register phase

Model of `Module::register` and `Module::collect` as `#[module]` emits them
(`crates/nestrs-macros/src/module.rs`), of `DynamicModule` (`crates/nestrs-core/src/module.rs`)
and of the builder state they run on. Both recursions mark a module before they compose its
imports, and return at once on a marked one; `register` then runs the fixpoint of
`Fixpoint.lean` over the module's own providers.

An import is a bare type path (`Sum.inl`, a static module) or an expression (`Sum.inr`, a
`DynamicModule` value). A dynamic module queues factories in the collect phase and registers some
bindings, one after the other, in the register phase; it is not deduplicated. A `Program` is the
link-time registry: modules with distinct ids whose static imports are linked. Modules written by
hand are left out.

Results:
* **`registerModules_eq`**: the register phase runs the events of a mark-once walk
  (`Lib/Visit.lean`) over the import graph, `schedule`, in order;
* `mem_schedule`: its module events are the modules reachable from the roots, once each;
* `runEvents_ok`: what the container and its log hold after a run that did not panic.
-/

namespace Nestrs.Core

open Nestrs.Lib

/-- An async factory: the key it produces and its outcome on the container so far. -/
structure Factory where
  key : TypeId
  run : Container → Except String AnyArc

/-- A `DynamicModule` value: the factories its `collect` queues and what its `register` does. -/
structure DynamicModule where
  factories : List Factory
  bindings : List ProviderBinding

/-- An entry of `imports = [...]`. -/
abbrev Import := TypeId ⊕ DynamicModule

/-- A `#[module(imports = [...], providers = [...])]`. -/
structure ModuleDecl where
  id : TypeId
  name : String
  imports : List Import
  providers : List ProviderBinding

/-- The `ModuleDescriptor` a module submits: only its static imports are recorded. -/
def ModuleDecl.descriptor (m : ModuleDecl) : ModuleDescriptor where
  module := m.id
  name := m.name
  imports := vertices m.imports
  providers := m.providers.map ProviderBinding.descriptor

/-- The modules and resolvers linked into a binary. -/
structure Program where
  modules : List ModuleDecl
  resolvers : List ResolverDescriptor
  distinct : (modules.map ModuleDecl.id).Nodup
  linked : ∀ m ∈ modules, ∀ id, Sum.inl id ∈ m.imports → id ∈ modules.map ModuleDecl.id

/-- `ContainerBuilder`. -/
structure ContainerBuilder where
  container : Container
  registeredModules : List TypeId
  collectedModules : List TypeId
  factories : List Factory

/-- `ContainerBuilder::default`. -/
def ContainerBuilder.empty : ContainerBuilder := ⟨Container.empty, [], [], []⟩

/-- `DynamicModule::register`. -/
def DynamicModule.register (d : DynamicModule) (c : Container) : Except Stop Container :=
  d.bindings.foldlM (fun c b => b.register c) c

namespace Program

variable (prog : Program)

/-- The module of an id. -/
def find (id : TypeId) : Option ModuleDecl := prog.modules.find? fun m => m.id = id

/-- The imports of a module. -/
def importsOf (id : TypeId) : List Import :=
  match prog.find id with
  | some m => m.imports
  | none => []

/-- The providers of a module. -/
def providersOf (id : TypeId) : List ProviderBinding :=
  match prog.find id with
  | some m => m.providers
  | none => []

/-- The name of a module. -/
def nameOf (id : TypeId) : String :=
  match prog.find id with
  | some m => m.name
  | none => ""

def descriptors : List ModuleDescriptor := prog.modules.map ModuleDecl.descriptor

end Program

/-! ## The register phase -/

/-- `import_calls`: compose the imports in order. -/
def registerImports (registerModule : TypeId → ContainerBuilder → Except Stop ContainerBuilder) :
    List Import → ContainerBuilder → Except Stop ContainerBuilder
  | [], builder => .ok builder
  | .inl id :: imports, builder => do
    registerImports registerModule imports (← registerModule id builder)
  | .inr d :: imports, builder => do
    let container ← d.register builder.container
    registerImports registerModule imports { builder with container }

/-- `Module::register`, nested at most `depth` deep. -/
def registerModule (prog : Program) :
    Nat → TypeId → ContainerBuilder → Except Stop ContainerBuilder
  | 0, id, builder =>
    if id ∈ builder.registeredModules then .ok builder
    else .error ⟨.overflow, builder.container.log⟩
  | depth + 1, id, builder =>
    -- `mark_registered`
    if id ∈ builder.registeredModules then .ok builder
    else do
      let builder ← registerImports (registerModule prog depth) (prog.importsOf id)
        { builder with registeredModules := id :: builder.registeredModules }
      let container ←
        registerProviders (prog.nameOf id) (prog.providersOf id) builder.container
      .ok { builder with container }

/-- The register loop over the root modules. -/
def registerModules (prog : Program) (roots : List TypeId) (builder : ContainerBuilder) :
    Except Stop ContainerBuilder :=
  roots.foldlM (fun builder id => registerModule prog prog.modules.length id builder) builder

/-! ## The collect phase -/

/-- `collect_calls`. -/
def collectImports (collectModule : TypeId → ContainerBuilder → Except Stop ContainerBuilder) :
    List Import → ContainerBuilder → Except Stop ContainerBuilder
  | [], builder => .ok builder
  | .inl id :: imports, builder => do
    collectImports collectModule imports (← collectModule id builder)
  | .inr d :: imports, builder =>
    collectImports collectModule imports
      { builder with factories := builder.factories ++ d.factories }

/-- `Module::collect`, nested at most `depth` deep. -/
def collectModule (prog : Program) :
    Nat → TypeId → ContainerBuilder → Except Stop ContainerBuilder
  | 0, id, builder =>
    if id ∈ builder.collectedModules then .ok builder
    else .error ⟨.overflow, builder.container.log⟩
  | depth + 1, id, builder =>
    if id ∈ builder.collectedModules then .ok builder
    else collectImports (collectModule prog depth) (prog.importsOf id)
      { builder with collectedModules := id :: builder.collectedModules }

/-- The collect loop over the root modules. -/
def collectModules (prog : Program) (roots : List TypeId) (builder : ContainerBuilder) :
    Except Stop ContainerBuilder :=
  roots.foldlM (fun builder id => collectModule prog prog.modules.length id builder) builder

/-! ## The schedule of a program -/

namespace Program

variable (prog : Program)

/-- The walk of the register phase: dynamic imports, and modules as their providers' turn comes. -/
def schedule (roots : List TypeId) : List Import :=
  match visit prog.importsOf prog.modules.length (roots.map Sum.inl) [] with
  | some (_, events) => events
  | none => []

/-- The roots are modules of the program. -/
def Linked (roots : List TypeId) : Prop := ∀ r ∈ roots, r ∈ prog.modules.map ModuleDecl.id

/-- What an event of the walk does to the container. -/
def runEvent : Import → Container → Except Stop Container
  | .inl id, c => registerProviders (prog.nameOf id) (prog.providersOf id) c
  | .inr d, c => d.register c

/-- The events of a walk, in order. -/
def runEvents (events : List Import) (c : Container) : Except Stop Container :=
  events.foldlM (fun c event => prog.runEvent event c) c

/-- The bindings an event registers. -/
def bindingsOf : Import → List ProviderBinding
  | .inl id => prog.providersOf id
  | .inr d => d.bindings

end Program

section Schedule

variable {prog : Program} {roots : List TypeId}

theorem find_eq_some {id : TypeId} {m : ModuleDecl} :
    prog.find id = some m ↔ m ∈ prog.modules ∧ m.id = id := by
  unfold Program.find
  constructor
  · intro h
    exact ⟨List.mem_of_find?_eq_some h, by simpa using List.find?_some h⟩
  · rintro ⟨hm, rfl⟩
    cases hf : prog.modules.find? fun n => n.id = m.id with
    | none =>
      have hno := List.find?_eq_none.mp hf m hm
      simp at hno
    | some n =>
      have hn : n.id = m.id := by simpa using List.find?_some hf
      rw [List.inj_on_of_nodup_map prog.distinct (List.mem_of_find?_eq_some hf) hm hn]

theorem importsOf_eq {m : ModuleDecl} (hm : m ∈ prog.modules) :
    prog.importsOf m.id = m.imports := by
  unfold Program.importsOf
  rw [find_eq_some.mpr ⟨hm, rfl⟩]

/-- The walk over the imports exists: no nesting is deeper than the number of modules. -/
theorem exists_schedule (hroots : prog.Linked roots) :
    ∃ marked, Visits prog.importsOf prog.modules.length (roots.map Sum.inl) [] marked
      (prog.schedule roots) := by
  have hclosed : ∀ v ∈ prog.modules.map ModuleDecl.id, ∀ u, Sum.inl u ∈ prog.importsOf v →
      u ∈ prog.modules.map ModuleDecl.id := by
    intro v hv u hu
    obtain ⟨m, hm, rfl⟩ := List.mem_map.mp hv
    rw [importsOf_eq hm] at hu
    exact prog.linked m hm u hu
  obtain ⟨marked, events, hv⟩ := exists_visits hclosed prog.modules.length (roots.map Sum.inl) []
    (fun v hv => by
      obtain ⟨r, hr, hrv⟩ := List.mem_map.mp hv
      cases hrv
      exact hroots _ hr)
    (by simp)
  refine ⟨marked, ?_⟩
  unfold Program.schedule
  rw [visit_of_visits hv]
  exact hv

/-- The import edges of the walk are those of the access graph. -/
theorem edge_importsOf (a b : TypeId) :
    Edge (fun v => vertices (prog.importsOf v)) a b ↔ Imports prog.descriptors a b := by
  unfold Edge Imports Program.descriptors
  constructor
  · intro h
    cases hf : prog.find a with
    | none =>
      simp [Program.importsOf, hf, vertices] at h
    | some m =>
      obtain ⟨hm, rfl⟩ := find_eq_some.mp hf
      simp only [importsOf_eq hm] at h
      exact ⟨m.descriptor, List.mem_map.mpr ⟨m, hm, rfl⟩, rfl, h⟩
  · rintro ⟨d, hd, rfl, hb⟩
    obtain ⟨m, hm, rfl⟩ := List.mem_map.mp hd
    have := importsOf_eq hm
    simp only [ModuleDecl.descriptor] at hb ⊢
    rw [this]
    exact hb

theorem edge_eq_imports :
    Edge (fun v => vertices (prog.importsOf v)) = Imports prog.descriptors := by
  funext a b
  exact propext (edge_importsOf a b)

theorem descriptors_distinct (prog : Program) :
    (prog.descriptors.map ModuleDescriptor.module).Nodup := by
  unfold Program.descriptors
  rw [List.map_map]
  exact prog.distinct

/-- The modules of the schedule are those the roots reach. -/
theorem mem_schedule (hroots : prog.Linked roots) (id : TypeId) :
    Sum.inl id ∈ prog.schedule roots ↔ ReachableFrom prog.descriptors roots id := by
  obtain ⟨marked, hv⟩ := exists_schedule hroots
  rw [hv.left_iff]
  unfold Reaches
  rw [edge_eq_imports]
  unfold ReachableFrom
  constructor
  · rintro ⟨v, hv, hr⟩
    obtain ⟨r, hr', hrv⟩ := List.mem_map.mp hv
    cases hrv
    exact ⟨_, hr', hr⟩
  · rintro ⟨r, hr, h⟩
    exact ⟨r, List.mem_map.mpr ⟨r, hr, rfl⟩, h⟩

theorem schedule_nodup (hroots : prog.Linked roots) :
    (vertices (prog.schedule roots)).Nodup := by
  obtain ⟨marked, hv⟩ := exists_schedule hroots
  exact hv.nodup

/-! ## The recursions follow the schedule -/

theorem runEvents_append (events events' : List Import) (c : Container) :
    prog.runEvents (events ++ events') c =
      prog.runEvents events c >>= prog.runEvents events' := by
  unfold Program.runEvents
  exact List.foldlM_append

theorem runEvents_cons (event : Import) (events : List Import) (c : Container) :
    prog.runEvents (event :: events) c = prog.runEvent event c >>= prog.runEvents events := by
  unfold Program.runEvents
  exact List.foldlM_cons

/-- `Module::register` performs the events of the walk. -/
theorem registerImports_eq {depth : Nat} {is events : List Import} {marked marked' : List TypeId}
    (h : Visits prog.importsOf depth is marked marked' events) (builder : ContainerBuilder)
    (hb : builder.registeredModules = marked) :
    registerImports (registerModule prog depth) is builder =
      (prog.runEvents events builder.container).map fun container =>
        { builder with container, registeredModules := marked' } := by
  induction h generalizing builder with
  | nil =>
    subst hb
    rfl
  | effect hr ih =>
    rename_i depth d is marked marked' events
    rw [registerImports, runEvents_cons, Program.runEvent]
    cases hd : d.register builder.container with
    | error s => rfl
    | ok c => exact ih { builder with container := c } hb
  | skip hv hr ih =>
    rename_i depth v is marked marked' events
    have hskip : registerModule prog depth v builder = .ok builder := by
      cases depth <;> rw [registerModule, if_pos (hb ▸ hv)]
    rw [registerImports, hskip]
    exact ih builder hb
  | enter hv hn hr ihn ihr =>
    rename_i depth v is marked marked₁ marked₂ inner events
    rw [registerImports, registerModule, if_neg (hb ▸ hv),
      ihn { builder with registeredModules := v :: builder.registeredModules } (by rw [← hb]),
      runEvents_append]
    cases hc : prog.runEvents inner builder.container with
    | error s => rfl
    | ok c =>
      simp only [bind, Except.bind, Except.map]
      rw [runEvents_cons, Program.runEvent]
      cases hp : registerProviders (prog.nameOf v) (prog.providersOf v) c with
      | error s => rfl
      | ok c' => exact ihr { builder with container := c', registeredModules := marked₁ } rfl

theorem registerModules_eq_imports (roots : List TypeId) (builder : ContainerBuilder) :
    registerModules prog roots builder =
      registerImports (registerModule prog prog.modules.length) (roots.map Sum.inl) builder := by
  unfold registerModules
  induction roots generalizing builder with
  | nil => rfl
  | cons r roots ih =>
    rw [List.foldlM_cons, List.map_cons, registerImports]
    exact bind_congr fun b => ih b

/-- **The register phase runs the schedule.** -/
theorem registerModules_eq (hroots : prog.Linked roots) (builder : ContainerBuilder)
    (hb : builder.registeredModules = []) :
    ∃ marked, registerModules prog roots builder =
      (prog.runEvents (prog.schedule roots) builder.container).map fun container =>
        { builder with container, registeredModules := marked } := by
  obtain ⟨marked, hv⟩ := exists_schedule hroots
  refine ⟨marked, ?_⟩
  rw [registerModules_eq_imports]
  exact registerImports_eq hv builder hb

/-- The factories an event of the walk queues. -/
def factoriesOf : Import → List Factory
  | .inl _ => []
  | .inr d => d.factories

theorem collectImports_eq {depth : Nat} {is events : List Import} {marked marked' : List TypeId}
    (h : Visits prog.importsOf depth is marked marked' events) (builder : ContainerBuilder)
    (hb : builder.collectedModules = marked) :
    collectImports (collectModule prog depth) is builder =
      .ok { builder with
        collectedModules := marked'
        factories := builder.factories ++ events.flatMap factoriesOf } := by
  induction h generalizing builder with
  | nil =>
    subst hb
    simp [collectImports]
  | effect hr ih =>
    rename_i depth d is marked marked' events
    rw [collectImports, ih { builder with factories := builder.factories ++ d.factories } hb]
    simp [factoriesOf]
  | skip hv hr ih =>
    rename_i depth v is marked marked' events
    have hskip : collectModule prog depth v builder = .ok builder := by
      cases depth <;> rw [collectModule, if_pos (hb ▸ hv)]
    rw [collectImports, hskip]
    exact ih builder hb
  | enter hv hn hr ihn ihr =>
    rename_i depth v is marked marked₁ marked₂ inner events
    rw [collectImports, collectModule, if_neg (hb ▸ hv),
      ihn { builder with collectedModules := v :: builder.collectedModules } (by rw [← hb])]
    simp only [bind, Except.bind]
    rw [ihr _ rfl]
    simp [factoriesOf]

/-- The collect phase queues the factories of the dynamic imports the roots reach. -/
theorem collectModules_eq (hroots : prog.Linked roots) (builder : ContainerBuilder)
    (hb : builder.collectedModules = []) :
    ∃ marked, collectModules prog roots builder =
      .ok { builder with
        collectedModules := marked
        factories := builder.factories ++ (prog.schedule roots).flatMap factoriesOf } := by
  obtain ⟨marked, hv⟩ := exists_schedule hroots
  refine ⟨marked, ?_⟩
  have himports : collectModules prog roots builder =
      collectImports (collectModule prog prog.modules.length) (roots.map Sum.inl) builder := by
    unfold collectModules
    clear hv hb hroots
    induction roots generalizing builder with
    | nil => rfl
    | cons r roots ih =>
      rw [List.foldlM_cons, List.map_cons, collectImports]
      exact bind_congr fun b => ih b
  rw [himports]
  exact collectImports_eq hv builder hb

end Schedule

/-! ## Runs that do not panic -/

/-- Each binding resolves at its turn. -/
def Resolved : Container → List ProviderBinding → Prop
  | _, [] => True
  | c, b :: bs => c.Resolves b ∧ Resolved (c.after b) bs

namespace Resolved

theorem append : ∀ {bs bs' : List ProviderBinding} {c : Container}, Resolved c bs →
    Resolved (c.afterAll bs) bs' → Resolved c (bs ++ bs')
  | [], _, _, _, h' => h'
  | _ :: _, _, _, h, h' => ⟨h.1, h.2.append h'⟩

theorem split {post : List ProviderBinding} {b : ProviderBinding} :
    ∀ {pre : List ProviderBinding} {c : Container}, Resolved c (pre ++ b :: post) →
      (c.afterAll pre).Resolves b
  | [], _, h => h.1
  | _ :: _, _, h => h.2.split

end Resolved

theorem Registered.resolved {rest : List ProviderBinding} :
    ∀ {bs : List ProviderBinding} {c : Container}, Registered rest c bs → Resolved c bs
  | [], _, _ => trivial
  | _ :: _, _, h => ⟨h.2.1, h.2.2.resolved⟩

/-- A module's providers registered without panic: all of them, in some order. -/
theorem registerProviders_ok {module : String} {ps : List ProviderBinding} {c c' : Container}
    (h : registerProviders module ps c = .ok c') :
    ∃ done, done.Perm ps ∧ Registered [] c done ∧ c' = c.afterAll done := by
  obtain ⟨done, rest, hp, hreg, hends⟩ := registerProviders_spec module ps c
  rw [h] at hends
  cases hends with
  | done hrest =>
    subst hrest
    exact ⟨done, by simpa using hp, hreg, rfl⟩

theorem dynamic_register_ok {bs : List ProviderBinding} {c c' : Container}
    (h : bs.foldlM (fun c b => b.register c) c = .ok c') : Resolved c bs ∧ c' = c.afterAll bs := by
  induction bs generalizing c with
  | nil =>
    cases h
    exact ⟨trivial, rfl⟩
  | cons b bs ih =>
    rw [List.foldlM_cons, bind_eq_ok] at h
    obtain ⟨c₁, hb, h⟩ := h
    by_cases hres : c.Resolves b
    · rw [(register_eq b c).1 hres] at hb
      cases hb
      obtain ⟨hrest, rfl⟩ := ih h
      exact ⟨⟨hres, hrest⟩, rfl⟩
    · obtain ⟨message, hm⟩ := (register_eq b c).2 hres
      rw [hm] at hb
      exact nomatch hb

theorem runEvent_ok {prog : Program} {event : Import} {c c' : Container}
    (h : prog.runEvent event c = .ok c') :
    ∃ done, done.Perm (prog.bindingsOf event) ∧ Resolved c done ∧ c' = c.afterAll done := by
  cases event with
  | inl id =>
    obtain ⟨done, hp, hreg, hc⟩ := registerProviders_ok h
    exact ⟨done, hp, hreg.resolved, hc⟩
  | inr d =>
    obtain ⟨hres, hc⟩ := dynamic_register_ok h
    exact ⟨d.bindings, .refl _, hres, hc⟩

/-- **A register phase without panic** registers the bindings of all its events, each resolving
at its turn. -/
theorem runEvents_ok {prog : Program} {events : List Import} {c c' : Container}
    (h : prog.runEvents events c = .ok c') :
    ∃ done, done.Perm (events.flatMap prog.bindingsOf) ∧ Resolved c done ∧
      c' = c.afterAll done := by
  induction events generalizing c with
  | nil =>
    cases h
    exact ⟨[], .refl _, trivial, rfl⟩
  | cons event events ih =>
    unfold Program.runEvents at h
    rw [List.foldlM_cons, bind_eq_ok] at h
    obtain ⟨c₁, he, h⟩ := h
    obtain ⟨done, hp, hres, rfl⟩ := runEvent_ok he
    obtain ⟨done', hp', hres', rfl⟩ := ih h
    refine ⟨done ++ done', ?_, hres.append hres', (Container.afterAll_append _ _ _).symm⟩
    rw [List.flatMap_cons]
    exact hp.append hp'

end Nestrs.Core
