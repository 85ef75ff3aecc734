import Nestrs.Core.Module

/-!
# Booting an application

Model of `App::new` and `AppBuilder` (`crates/nestrs-core/src/app.rs`). `build` runs the collect
phase, the queued factories (skipping a key that is present, aborting at the first error), the
register phase and the overrides, and then the two validations of `Access.lean`, for which the
keys present before the register phase are global. `App::new` has neither seeds nor factories: it
registers one root and validates with nothing global.

An `AppBuilder` holds what its methods put there: seeds, root factories, root modules, overrides.

A dependency that nobody registers is caught in two places. The register fixpoint sees only
`dependencies`, which a provider built later reports as empty; and the access check skips a key
that no module provides, on the ground that the fixpoint has rejected it. A controller's missing
dependency passes both.

Results:
* `build_eq_ok`, `new_eq_ok`: what a boot that returns `Ok` has done;
* **`boot_complete_iff`**: after a boot that returns `Ok`, every injected key of every reachable
  provider is in the container iff those not resolved at registration are supplied by something.
-/

namespace Nestrs.Core

open Nestrs.Lib

/-- Why a boot does not return `Ok`. -/
inductive BootError where
  | panic (stop : Stop)
  | factory (message : String)
  | access (e : AccessGraphError)
  | membership (e : ResolverMembershipError)

/-- `AppBuilder`, over the modules of a binary: what its methods were called with, in order. -/
structure AppBuilder (prog : Program) where
  /-- The seeds (`provide`, `provide_arc`, `provide_dyn`). -/
  seeds : List (TypeId × AnyArc)
  /-- The factories queued at the root. -/
  factories : List Factory
  modules : List TypeId
  overrides : List (TypeId × AnyArc)
  linked : prog.Linked modules

/-- The factory phase: a factory whose key is present is skipped. -/
def runFactories : List Factory → Container → Except String Container
  | [], c => .ok c
  | f :: fs, c =>
    if c.contains f.key then runFactories fs c
    else do runFactories fs (c.provide f.key (← f.run c))

/-- Values put into a container in order: the seeds, or the override phase. -/
def provideAll (values : List (TypeId × AnyArc)) (c : Container) : Container :=
  values.foldl (fun c v => c.provide v.1 v.2) c

namespace AppBuilder

variable {prog : Program}

/-- The seeds, as they stand when `build` is called. -/
def container (app : AppBuilder prog) : Container := provideAll app.seeds Container.empty

/-- The `ContainerBuilder` inside. -/
def builder (app : AppBuilder prog) : ContainerBuilder := ⟨app.container, [], [], app.factories⟩

/-- `AppBuilder::build`. -/
def build (app : AppBuilder prog) (order : HashOrder) : Except BootError Container := do
  let builder ← (collectModules prog app.modules app.builder).mapError .panic
  let container ← (runFactories builder.factories builder.container).mapError .factory
  let builder := { builder with container, factories := [] }
  let global := container.contains
  let builder ← (registerModules prog app.modules builder).mapError .panic
  let container := provideAll app.overrides builder.container
  (validateAccessGraph prog.descriptors order app.modules global).mapError .access
  (validateResolverMembership prog.descriptors order app.modules prog.resolvers).mapError
    .membership
  .ok container

end AppBuilder

/-- `App::new`. -/
def App.new (prog : Program) (root : TypeId) (order : HashOrder) :
    Except BootError Container := do
  let builder ← (registerModules prog [root] ContainerBuilder.empty).mapError .panic
  (validateAccessGraph prog.descriptors order [root] fun _ => false).mapError .access
  (validateResolverMembership prog.descriptors order [root] prog.resolvers).mapError .membership
  .ok builder.container

/-! ## A boot that returns `Ok` -/

section Boot

variable {prog : Program} {order : HashOrder}

/-- The factories that are queued when the factory phase begins. -/
def AppBuilder.queued (app : AppBuilder prog) : List Factory :=
  app.factories ++ (prog.schedule app.modules).flatMap factoriesOf

theorem contains_provide (c : Container) (key : TypeId) (value : AnyArc) (k : TypeId) :
    (c.provide key value).contains k = true ↔ c.contains k = true ∨ k = key := by
  unfold Container.contains Container.provide
  by_cases hk : k = key
  · simp [hk]
  · simp [hk]

theorem contains_runFactories {fs : List Factory} {c c' : Container}
    (h : runFactories fs c = .ok c') (k : TypeId) :
    c'.contains k = true ↔ c.contains k = true ∨ ∃ f ∈ fs, f.key = k := by
  induction fs generalizing c with
  | nil =>
    cases h
    simp
  | cons f fs ih =>
    rw [runFactories] at h
    rw [List.exists_mem_cons_iff]
    by_cases hc : c.contains f.key = true
    · rw [if_pos hc] at h
      rw [ih h]
      constructor
      · rintro (h | h)
        · exact Or.inl h
        · exact Or.inr (Or.inr h)
      · rintro (h | rfl | h)
        · exact Or.inl h
        · exact Or.inl hc
        · exact Or.inr h
    · rw [if_neg hc, bind_eq_ok] at h
      obtain ⟨value, -, h⟩ := h
      rw [ih h, contains_provide, or_assoc, @eq_comm _ k]

theorem contains_provideAll (values : List (TypeId × AnyArc)) (c : Container)
    (k : TypeId) :
    (provideAll values c).contains k = true ↔
      c.contains k = true ∨ ∃ v ∈ values, v.1 = k := by
  unfold provideAll
  induction values generalizing c with
  | nil => simp
  | cons v values ih =>
    rw [List.foldl_cons, ih, contains_provide, List.exists_mem_cons_iff, or_assoc, @eq_comm _ k]

/-- What a build that returns `Ok` has gone through. -/
theorem build_eq_ok (app : AppBuilder prog) {c : Container} :
    app.build order = .ok c ↔
      ∃ c₀ c₁, runFactories app.queued app.container = .ok c₀ ∧
        prog.runEvents (prog.schedule app.modules) c₀ = .ok c₁ ∧
        validateAccessGraph prog.descriptors order app.modules c₀.contains = .ok () ∧
        validateResolverMembership prog.descriptors order app.modules prog.resolvers = .ok () ∧
        c = provideAll app.overrides c₁ := by
  obtain ⟨collected, hcollect⟩ := collectModules_eq app.linked app.builder rfl
  unfold AppBuilder.build
  simp only [hcollect, bind_eq_ok, mapError_eq_ok]
  constructor
  · rintro ⟨_, hb, c₀, hf, b, hr, ⟨⟩, hv, ⟨⟩, hm, hc⟩
    cases hb
    obtain ⟨marked, hreg⟩ := registerModules_eq app.linked
      ⟨c₀, [], collected, []⟩ rfl
    simp only [AppBuilder.builder] at hr
    rw [hreg, map_eq_ok] at hr
    obtain ⟨c₁, he, rfl⟩ := hr
    cases hc
    exact ⟨c₀, c₁, hf, he, hv, hm, rfl⟩
  · rintro ⟨c₀, c₁, hf, he, hv, hm, rfl⟩
    obtain ⟨marked, hreg⟩ := registerModules_eq app.linked
      ⟨c₀, [], collected, []⟩ rfl
    refine ⟨_, rfl, c₀, hf, ⟨c₁, marked, collected, []⟩, ?_, (), hv, (), hm, rfl⟩
    simp only [AppBuilder.builder]
    rw [hreg, he]
    rfl

theorem new_eq_ok {root : TypeId} (hroot : prog.Linked [root]) {c : Container} :
    App.new prog root order = .ok c ↔
      prog.runEvents (prog.schedule [root]) Container.empty = .ok c ∧
        validateAccessGraph prog.descriptors order [root] (fun _ => false) = .ok () ∧
        validateResolverMembership prog.descriptors order [root] prog.resolvers = .ok () := by
  obtain ⟨marked, hreg⟩ := registerModules_eq hroot ContainerBuilder.empty rfl
  unfold App.new
  simp only [hreg, bind_eq_ok, mapError_eq_ok, map_eq_ok]
  constructor
  · rintro ⟨b, ⟨c₁, he, rfl⟩, ⟨⟩, hv, ⟨⟩, hm, hc⟩
    cases hc
    exact ⟨he, hv, hm⟩
  · rintro ⟨he, hv, hm⟩
    exact ⟨_, ⟨c, he, rfl⟩, (), hv, (), hm, rfl⟩

/-! ## What the module tree supplies -/

/-- The key is registered by a provider of a reachable module, or by a dynamic import of one. -/
def Supplies (prog : Program) (roots : List TypeId) (k : TypeId) : Prop :=
  ∃ m ∈ prog.modules, ReachableFrom prog.descriptors roots m.id ∧
    ((∃ b ∈ m.providers, k ∈ b.adds) ∨
      ∃ d, Sum.inr d ∈ m.imports ∧ ∃ b ∈ d.bindings, k ∈ b.adds)

/-- A dynamic import of a reachable module queues a factory for the key. -/
def Queues (prog : Program) (roots : List TypeId) (k : TypeId) : Prop :=
  ∃ m ∈ prog.modules, ReachableFrom prog.descriptors roots m.id ∧
    ∃ d, Sum.inr d ∈ m.imports ∧ ∃ f ∈ d.factories, f.key = k

/-- Something gives the key a value: a seed, a factory, the module tree or an override. -/
def AppBuilder.Available (app : AppBuilder prog) (k : TypeId) : Prop :=
  app.container.contains k = true ∨ (∃ f ∈ app.factories, f.key = k) ∨
    Queues prog app.modules k ∨ Supplies prog app.modules k ∨ ∃ o ∈ app.overrides, o.1 = k

/-- The imports of an id are those of a module that carries it. -/
theorem mem_importsOf {id : TypeId} {i : Import} :
    i ∈ prog.importsOf id ↔ ∃ m ∈ prog.modules, m.id = id ∧ i ∈ m.imports := by
  unfold Program.importsOf
  constructor
  · intro h
    cases hf : prog.find id with
    | none =>
      rw [hf] at h
      exact absurd h List.not_mem_nil
    | some m =>
      rw [hf] at h
      obtain ⟨hm, hid⟩ := find_eq_some.mp hf
      exact ⟨m, hm, hid, h⟩
  · rintro ⟨m, hm, hid, hi⟩
    rw [find_eq_some.mpr ⟨hm, hid⟩]
    exact hi

/-- An event of the schedule is a reachable module or a dynamic import of one. -/
theorem mem_schedule_inr {roots : List TypeId} (hroots : prog.Linked roots) (d : DynamicModule) :
    Sum.inr d ∈ prog.schedule roots ↔
      ∃ m ∈ prog.modules, ReachableFrom prog.descriptors roots m.id ∧ Sum.inr d ∈ m.imports := by
  obtain ⟨marked, hv⟩ := exists_schedule hroots
  rw [hv.effect_iff]
  constructor
  · rintro (h | ⟨v, hv, h⟩)
    · obtain ⟨r, -, hr⟩ := List.mem_map.mp h
      exact nomatch hr
    · obtain ⟨m, hm, rfl, hd⟩ := mem_importsOf.mp h
      exact ⟨m, hm, (mem_schedule hroots m.id).mp hv, hd⟩
  · rintro ⟨m, hm, hr, h⟩
    exact Or.inr ⟨m.id, (mem_schedule hroots m.id).mpr hr, mem_importsOf.mpr ⟨m, hm, rfl, h⟩⟩

/-- The providers of an id are those of a module that carries it. -/
theorem mem_providersOf {id : TypeId} {b : ProviderBinding} :
    b ∈ prog.providersOf id ↔ ∃ m ∈ prog.modules, m.id = id ∧ b ∈ m.providers := by
  unfold Program.providersOf
  constructor
  · intro h
    cases hf : prog.find id with
    | none =>
      rw [hf] at h
      exact absurd h List.not_mem_nil
    | some m =>
      rw [hf] at h
      obtain ⟨hm, hid⟩ := find_eq_some.mp hf
      exact ⟨m, hm, hid, h⟩
  · rintro ⟨m, hm, hid, hb⟩
    rw [find_eq_some.mpr ⟨hm, hid⟩]
    exact hb

/-- The bindings of the schedule are those of the reachable modules and of their dynamic
imports. -/
theorem exists_scheduled_iff {roots : List TypeId} (hroots : prog.Linked roots)
    (P : ProviderBinding → Prop) :
    (∃ b ∈ (prog.schedule roots).flatMap prog.bindingsOf, P b) ↔
      ∃ m ∈ prog.modules, ReachableFrom prog.descriptors roots m.id ∧
        ((∃ b ∈ m.providers, P b) ∨ ∃ d, Sum.inr d ∈ m.imports ∧ ∃ b ∈ d.bindings, P b) := by
  constructor
  · rintro ⟨b, hb, hk⟩
    obtain ⟨event, he, hb⟩ := List.mem_flatMap.mp hb
    cases event with
    | inl id =>
      rw [mem_schedule hroots] at he
      obtain ⟨m, hm, rfl, hb'⟩ := mem_providersOf.mp hb
      exact ⟨m, hm, he, Or.inl ⟨b, hb', hk⟩⟩
    | inr d =>
      obtain ⟨m, hm, hr, hd⟩ := (mem_schedule_inr hroots d).mp he
      exact ⟨m, hm, hr, Or.inr ⟨d, hd, b, hb, hk⟩⟩
  · rintro ⟨m, hm, hr, ⟨b, hb, hk⟩ | ⟨d, hd, b, hb, hk⟩⟩
    · refine ⟨b, List.mem_flatMap.mpr ⟨Sum.inl m.id, (mem_schedule hroots m.id).mpr hr, ?_⟩, hk⟩
      exact mem_providersOf.mpr ⟨m, hm, rfl, hb⟩
    · exact ⟨b, List.mem_flatMap.mpr
        ⟨Sum.inr d, (mem_schedule_inr hroots d).mpr ⟨m, hm, hr, hd⟩, hb⟩, hk⟩

theorem adds_schedule_iff {roots : List TypeId} (hroots : prog.Linked roots) (k : TypeId) :
    (∃ b ∈ (prog.schedule roots).flatMap prog.bindingsOf, k ∈ b.adds) ↔
      Supplies prog roots k :=
  exists_scheduled_iff hroots fun b => k ∈ b.adds

theorem queued_iff (app : AppBuilder prog) (k : TypeId) :
    (∃ f ∈ app.queued, f.key = k) ↔
      (∃ f ∈ app.factories, f.key = k) ∨ Queues prog app.modules k := by
  unfold AppBuilder.queued
  constructor
  · rintro ⟨f, hf, hk⟩
    rcases List.mem_append.mp hf with hf | hf
    · exact Or.inl ⟨f, hf, hk⟩
    · obtain ⟨event, he, hf⟩ := List.mem_flatMap.mp hf
      cases event with
      | inl id => exact absurd hf List.not_mem_nil
      | inr d =>
        obtain ⟨m, hm, hr, hd⟩ := (mem_schedule_inr app.linked d).mp he
        exact Or.inr ⟨m, hm, hr, d, hd, f, hf, hk⟩
  · rintro (⟨f, hf, hk⟩ | ⟨m, hm, hr, d, hd, f, hf, hk⟩)
    · exact ⟨f, List.mem_append_left _ hf, hk⟩
    · refine ⟨f, List.mem_append_right _ (List.mem_flatMap.mpr ⟨Sum.inr d, ?_, hf⟩), hk⟩
      exact (mem_schedule_inr app.linked d).mpr ⟨m, hm, hr, hd⟩

/-! ## Completeness of the boot -/

/-- Every key a reachable module's provider injects is in the container. -/
def Complete (prog : Program) (roots : List TypeId) (c : Container) : Prop :=
  ∀ m ∈ prog.modules, ReachableFrom prog.descriptors roots m.id →
    ∀ b ∈ m.providers, ∀ k ∈ b.provider.injected, c.contains k = true

/-- Every injected key that is not resolved when its provider is registered is available: the
keys of the providers built later. -/
def LaterKeysAvailable (prog : Program) (roots : List TypeId) (available : TypeId → Prop) :
    Prop :=
  ∀ m ∈ prog.modules, ReachableFrom prog.descriptors roots m.id →
    ∀ b ∈ m.providers, ∀ k ∈ b.provider.injected,
      (∀ f ∈ b.reads, f.optional = false → f.key ≠ k) → available k

/-- A register phase without panic leaves the keys resolved during it in the container, so the
container is complete iff the other injected keys are there. -/
theorem complete_iff {roots : List TypeId} (hroots : prog.Linked roots) {c₀ c₁ c : Container}
    (hrun : prog.runEvents (prog.schedule roots) c₀ = .ok c₁)
    (hkeep : ∀ k, c₁.contains k = true → c.contains k = true) {available : TypeId → Prop}
    (hc : ∀ k, c.contains k = true ↔ available k) :
    Complete prog roots c ↔ LaterKeysAvailable prog roots available := by
  constructor
  · intro h m hm hr b hb k hk _
    exact (hc k).mp (h m hm hr b hb k hk)
  · intro h m hm hr b hb k hk
    by_cases hread : ∀ f ∈ b.reads, f.optional = false → f.key ≠ k
    · exact (hc k).mpr (h m hm hr b hb k hk hread)
    · simp only [not_forall, not_not] at hread
      obtain ⟨f, hf, ho, rfl⟩ := hread
      obtain ⟨done, hp, hres, rfl⟩ := runEvents_ok hrun
      have hmem : b ∈ done := hp.mem_iff.mpr (List.mem_flatMap.mpr
        ⟨Sum.inl m.id, (mem_schedule hroots m.id).mpr hr, mem_providersOf.mpr ⟨m, hm, rfl, hb⟩⟩)
      obtain ⟨pre, post, rfl⟩ := List.append_of_mem hmem
      refine hkeep f.key ?_
      rw [Container.afterAll_append, Container.contains_afterAll]
      exact Or.inl (hres.split f hf ho)

/-- **When an accepted boot is complete.** Every injected key of every provider of every reachable
module is in the container exactly when the keys not resolved at registration (those of
controllers, gateways, jobs and other providers built later, and layers) are given a value by a
seed, a factory, a registering provider of the tree or an override. -/
theorem boot_complete_iff (prog : Program) (order : HashOrder) :
    (∀ (app : AppBuilder prog) (c : Container), app.build order = .ok c →
        (Complete prog app.modules c ↔
          LaterKeysAvailable prog app.modules app.Available)) ∧
      ∀ (root : TypeId) (c : Container), prog.Linked [root] → App.new prog root order = .ok c →
        (Complete prog [root] c ↔ LaterKeysAvailable prog [root] (Supplies prog [root])) := by
  constructor
  · intro app c h
    obtain ⟨c₀, c₁, hf, hrun, -, -, rfl⟩ := (build_eq_ok app).mp h
    refine complete_iff app.linked hrun
      (fun k hk => (contains_provideAll _ _ k).mpr (Or.inl hk)) fun k => ?_
    obtain ⟨done, hp, -, rfl⟩ := runEvents_ok hrun
    unfold AppBuilder.Available
    rw [contains_provideAll, Container.contains_afterAll, contains_runFactories hf,
      queued_iff, ← adds_schedule_iff app.linked]
    simp only [hp.mem_iff, or_assoc]
  · intro root c hroot h
    obtain ⟨hrun, -, -⟩ := (new_eq_ok hroot).mp h
    refine complete_iff hroot hrun (fun k hk => hk) fun k => ?_
    obtain ⟨done, hp, -, rfl⟩ := runEvents_ok hrun
    rw [Container.contains_afterAll, ← adds_schedule_iff hroot]
    simp only [hp.mem_iff]
    exact ⟨fun h => h.resolve_left (by simp [Container.contains, Container.empty]), Or.inr⟩

/-- `ReportsModule` with one cron job, `Digest`, that injects a `Mailer`. -/
def reportsModule : ModuleDecl :=
  ⟨1, "ReportsModule", [],
    [.concrete ⟨10, "Digest", [⟨"mailer", 99, "Mailer", false⟩], .cronJob⟩]⟩

def reportsProgram : Program where
  modules := [reportsModule]
  resolvers := []
  distinct := by decide
  linked m hm id hid := by
    rw [List.mem_singleton.mp hm] at hid
    exact absurd hid List.not_mem_nil

/-- The application over these seeds. -/
def reportsApp (seeds : List (TypeId × AnyArc)) : AppBuilder reportsProgram where
  seeds := seeds
  factories := []
  modules := [1]
  overrides := []
  linked r hr := by
    rw [List.mem_singleton.mp hr]
    decide

/-- With a seeded `Mailer` the boot is complete. -/
theorem reports_seeded_complete :
    ∃ c, (reportsApp [(99, .value 0)]).build .newestFirst = .ok c ∧
      Complete reportsProgram [1] c := by
  obtain ⟨c, hc⟩ := isOk_iff.mp (show ((reportsApp
    [(99, .value 0)]).build .newestFirst).isOk = true by decide)
  refine ⟨c, hc, ((boot_complete_iff reportsProgram .newestFirst).1 _ c hc).mpr ?_⟩
  intro m hm _ b hb k hk _
  rw [List.mem_singleton.mp hm] at hb
  rw [List.mem_singleton.mp hb] at hk
  rw [show k = 99 by simpa [ProviderBinding.provider, Provider.injected, Provider.depKeys,
    Provider.layers] using hk]
  exact Or.inl (by decide)

/-- Without it the boot returns `Ok` as well, and building the job later has no `Mailer`. -/
theorem reports_boot_incomplete :
    ∃ c, (reportsApp []).build .newestFirst = .ok c ∧
      ¬ Complete reportsProgram [1] c := by
  have hmissing : ((reportsApp []).build .newestFirst).toOption.map
      (fun c => c.contains 99) = some false := by decide
  cases hb : (reportsApp []).build .newestFirst with
  | error e =>
    rw [hb] at hmissing
    exact nomatch hmissing
  | ok c =>
    refine ⟨c, rfl, fun h => ?_⟩
    have hc := h reportsModule (List.mem_singleton.mpr rfl) ⟨1, List.mem_singleton.mpr rfl, .refl⟩
      _ (List.mem_singleton.mpr rfl) 99 (by decide)
    rw [hb] at hmissing
    simp only [Except.toOption, Option.map_some, Option.some.injEq, hc] at hmissing
    exact absurd hmissing (by simp)

end Boot

end Nestrs.Core
