import Nestrs.Core.SomeOrder

/-!
# Import order

"Import order never matters", says the README. All modules share one flat container, so a provider
could resolve a dependency of a sibling module it does not import, if the sibling happens to be
registered first. For required dependencies the access check is what rules this out: a module's
fixpoint finds a key it needs iff the key is global or the module's import closure registers it
(`contains_turn_iff`), and the closure is finished earlier in every order.

What remains is the order of one `providers` list: the trait-object bindings of `FixpointOrder.lean`
that are not waited for. It shows unless the application boots in no order at all, and which ones
those are can be read off their modules (`SomeOrder.lean`).

Results:
* `contains_turn_iff`: the required keys present at a module's turn;
* `get_final`: a value found at some turn is the value in the final container;
* `exists_boots_iff`: an application boots in some order iff it is `Bootable`;
* **`import_order_free`**: neither the imports, the providers nor the roots matter to a boot iff no
  ungated binding needs a key of its own list, or no order boots.
-/

namespace Nestrs.Core

open Nestrs.Lib

/-! ## Values in a container -/

namespace Container

theorem get_after (c : Container) (b : ProviderBinding) (k : TypeId) :
    (c.after b).get k = if k ∈ b.adds then some (.built k b.provider.type) else c.get k := rfl

theorem get_afterAll_of_not_adds {c : Container} {bs : List ProviderBinding} {k : TypeId}
    (h : ∀ b ∈ bs, k ∉ b.adds) : (c.afterAll bs).get k = c.get k := by
  induction bs generalizing c with
  | nil => rfl
  | cons b bs ih =>
    obtain ⟨hb, hbs⟩ := List.forall_mem_cons.mp h
    rw [afterAll_cons, ih hbs, get_after, if_neg hb]

/-- A key that one provider registers holds that provider's instance. -/
theorem get_afterAll_of_adds {c : Container} {bs : List ProviderBinding} {b : ProviderBinding}
    {k : TypeId} (hb : b ∈ bs) (hk : k ∈ b.adds) (huniq : ∀ x ∈ bs, k ∈ x.adds → x = b) :
    (c.afterAll bs).get k = some (.built k b.provider.type) := by
  induction bs using List.reverseRecOn with
  | nil => exact absurd hb List.not_mem_nil
  | append_singleton bs y ih =>
    rw [afterAll_append, afterAll_cons, afterAll_nil, get_after]
    by_cases hy : k ∈ y.adds
    · rw [if_pos hy, huniq y (by simp) hy]
    · rw [if_neg hy]
      refine ih ?_ fun x hx => huniq x (List.mem_append_left _ hx)
      rcases List.mem_append.mp hb with hb | hb
      · exact hb
      · rw [List.mem_singleton.mp hb] at hk
        exact absurd hk hy

/-- What a list of bindings leaves under a key does not depend on its order, when one binding at
most registers it. -/
theorem get_afterAll_perm {c : Container} {bs bs' : List ProviderBinding} {k : TypeId}
    (hp : bs'.Perm bs) (huniq : ∀ x ∈ bs, ∀ y ∈ bs, k ∈ x.adds → k ∈ y.adds → x = y) :
    (c.afterAll bs').get k = (c.afterAll bs).get k := by
  by_cases hadd : ∃ b ∈ bs, k ∈ b.adds
  · obtain ⟨b, hb, hk⟩ := hadd
    rw [get_afterAll_of_adds hb hk fun x hx hxk => huniq x hx b hb hxk hk,
      get_afterAll_of_adds (hp.mem_iff.mpr hb) hk fun x hx hxk =>
        huniq x (hp.mem_iff.mp hx) b hb hxk hk]
  · have hno : ∀ b ∈ bs, k ∉ b.adds := fun b hb hk => hadd ⟨b, hb, hk⟩
    rw [get_afterAll_of_not_adds hno,
      get_afterAll_of_not_adds fun b hb => hno b (hp.mem_iff.mp hb)]

/-- A value found on the way is the value at the end. -/
theorem get_final {c : Container} {pre post : List ProviderBinding} {k : TypeId}
    (huniq : ∀ x ∈ pre ++ post, ∀ y ∈ pre ++ post, k ∈ x.adds → k ∈ y.adds → x = y)
    (hfresh : ∀ x ∈ pre ++ post, k ∈ x.adds → c.contains k = false)
    (hk : (c.afterAll pre).contains k = true) :
    (c.afterAll pre).get k = (c.afterAll (pre ++ post)).get k := by
  rcases (contains_afterAll c pre k).mp hk with hc | ⟨x, hx, hxk⟩
  · have hno : ∀ x ∈ pre ++ post, k ∉ x.adds := fun x hx hxk => by
      rw [hfresh x hx hxk] at hc
      exact absurd hc Bool.false_ne_true
    rw [get_afterAll_of_not_adds hno,
      get_afterAll_of_not_adds fun x hx => hno x (List.mem_append_left _ hx)]
  · have hx' : x ∈ pre ++ post := List.mem_append_left _ hx
    rw [get_afterAll_of_adds hx hxk fun y hy hyk =>
        huniq y (List.mem_append_left _ hy) x hx' hyk hxk,
      get_afterAll_of_adds hx' hxk fun y hy hyk => huniq y hy x hx' hyk hxk]

end Container

/-! ## Distinct keys -/

/-- The keys of a binding: the one it is listed under and those it registers. -/
def ProviderBinding.keys (b : ProviderBinding) : List TypeId := b.providedKey :: b.adds

/-- The providers of the reachable modules have distinct keys. -/
structure DistinctKeys (prog : Program) (roots : List TypeId) : Prop where
  nodup : ∀ id, ReachableFrom prog.descriptors roots id → (prog.providersOf id).Nodup
  owner : ∀ id n, ReachableFrom prog.descriptors roots id →
    ReachableFrom prog.descriptors roots n → ∀ b ∈ prog.providersOf id,
      ∀ x ∈ prog.providersOf n, ∀ k ∈ b.keys, k ∈ x.keys → id = n ∧ b = x

/-- Each provider of the reachable modules registers at most the key it is listed under. -/
def RegistersOwn (prog : Program) (roots : List TypeId) : Prop :=
  ∀ id, ReachableFrom prog.descriptors roots id → ∀ b ∈ prog.providersOf id,
    ∀ k ∈ b.adds, k = b.providedKey

section Turn

variable {prog prog' : Program} {roots roots' : List TypeId} {order : HashOrder} {c d : Container}
  {pre post : List Import} {id : TypeId}

theorem nodup_providersOf (h : ∀ m ∈ prog.modules, m.providers.Nodup) (id : TypeId) :
    (prog.providersOf id).Nodup := by
  unfold Program.providersOf
  cases hf : prog.find id with
  | none => exact List.nodup_nil
  | some m => exact h m (find_eq_some.mp hf).1

theorem DistinctKeys.reorders (h : DistinctKeys prog roots) (hre : prog.Reorders prog')
    (hp : roots'.Perm roots) : DistinctKeys prog' roots' where
  nodup id hr := by
    rw [reachable_reorders hre hp] at hr
    exact (providersOf_reorders hre id).nodup_iff.mpr (h.nodup id hr)
  owner id n hr hn b hb x hx := by
    rw [reachable_reorders hre hp] at hr hn
    exact h.owner id n hr hn b ((providersOf_reorders hre id).mem_iff.mp hb) x
      ((providersOf_reorders hre n).mem_iff.mp hx)

theorem RegistersOwn.reorders (h : RegistersOwn prog roots) (hre : prog.Reorders prog')
    (hp : roots'.Perm roots) : RegistersOwn prog' roots' := by
  intro id hr b hb
  rw [reachable_reorders hre hp] at hr
  exact h id hr b ((providersOf_reorders hre id).mem_iff.mp hb)

theorem acyclic_reorders (hre : prog.Reorders prog') (hac : Acyclic prog.importsOf) :
    Acyclic prog'.importsOf := by
  unfold Acyclic at hac ⊢
  rw [edge_eq_imports] at hac ⊢
  rw [imports_reorders hre]
  exact hac

/-- What a module imports is finished before its turn. -/
theorem before_of_inClosure (hac : Acyclic prog.importsOf) (hroots : prog.Linked roots)
    (hsplit : prog.schedule roots = pre ++ Sum.inl id :: post) {n : TypeId}
    (hn : InClosure prog.descriptors id n) (hne : n ≠ id) : Sum.inl n ∈ pre := by
  obtain ⟨marked, hv⟩ := exists_schedule hroots
  refine hv.topological hac hsplit ?_
  rw [edge_eq_imports]
  exact (Relation.reflTransGen_iff_eq_or_transGen.mp hn).resolve_left hne

theorem reachable_of_before (hroots : prog.Linked roots)
    (hsplit : prog.schedule roots = pre ++ Sum.inl id :: post) :
    ReachableFrom prog.descriptors roots id ∧
      ∀ n, Sum.inl n ∈ pre → n ≠ id ∧ ReachableFrom prog.descriptors roots n := by
  simp only [← mem_schedule hroots, hsplit]
  refine ⟨by simp, fun n hn => ⟨?_, List.mem_append_left _ hn⟩⟩
  rintro rfl
  exact not_mem_before hroots hsplit hn

/-- At a module's turn its own keys are there only if they are global. -/
theorem contains_own_iff (hd : DistinctKeys prog roots) (hbare : prog.Bare)
    (hroots : prog.Linked roots) (hsplit : prog.schedule roots = pre ++ Sum.inl id :: post)
    (hrun : prog.runEvents pre c = .ok d) {b : ProviderBinding} (hb : b ∈ prog.providersOf id)
    {k : TypeId} (hk : k ∈ b.keys) : d.contains k = true ↔ c.contains k = true := by
  rw [contains_before hbare hroots hsplit hrun]
  refine ⟨fun h => h.resolve_right ?_, Or.inl⟩
  rintro ⟨n, hn, x, hx, hxk⟩
  obtain ⟨hid, hbefore⟩ := reachable_of_before hroots hsplit
  obtain ⟨hne, hr⟩ := hbefore n hn
  exact hne (hd.owner id n hid hr b hb x hx k hk (List.mem_cons_of_mem _ hxk)).1.symm

theorem ProviderBinding.injected_of_reads {b : ProviderBinding} {f : InjectField}
    (hf : f ∈ b.reads) (ho : f.optional = false) : f.key ∈ b.provider.injected := by
  have hfields : f ∈ b.provider.fields := by
    cases b with
    | concrete p =>
      by_cases he : p.eager = true
      · rwa [reads, if_pos he] at hf
      · rw [reads, if_neg he] at hf
        exact absurd hf List.not_mem_nil
    | dyn p traitName traitKey => exact hf
  refine List.mem_append_left _ (List.mem_map.mpr ⟨f, List.mem_filter.mpr ⟨hfields, ?_⟩, rfl⟩)
  simp [ho]

/-- **The injected keys present at a module's turn**, in a program the access check accepts: the
global ones and those its import closure registers. -/
theorem contains_turn_iff (hd : DistinctKeys prog roots) (hown : RegistersOwn prog roots)
    (hbare : prog.Bare) (hac : Acyclic prog.importsOf) (hroots : prog.Linked roots)
    (hv : validateAccessGraph prog.descriptors order roots c.contains = .ok ())
    (hsplit : prog.schedule roots = pre ++ Sum.inl id :: post)
    (hrun : prog.runEvents pre c = .ok d) {b : ProviderBinding} (hb : b ∈ prog.providersOf id)
    {k : TypeId} (hk : k ∈ b.provider.injected) (hno : ∀ x ∈ prog.providersOf id, k ∉ x.keys) :
    d.contains k = true ↔ c.contains k = true ∨
      ∃ n, InClosure prog.descriptors id n ∧ ∃ x ∈ prog.providersOf n, k ∈ x.adds := by
  obtain ⟨hid, hbefore⟩ := reachable_of_before hroots hsplit
  rw [contains_before hbare hroots hsplit hrun]
  constructor
  · rintro (hc | ⟨n, hn, x, hx, hxk⟩)
    · exact Or.inl hc
    cases hg : c.contains k with
    | true => exact Or.inl rfl
    | false =>
      obtain ⟨-, hr⟩ := hbefore n hn
      -- the check has placed some provider of `k` in the closure, and there is only `x`
      by_cases hclosure : InClosureProvided prog id k
      · obtain ⟨n', hn', x', hx', rfl⟩ := hclosure
        have hr' : ReachableFrom prog.descriptors roots n' := by
          obtain ⟨r, hroot, hrid⟩ := hid
          exact ⟨r, hroot, hrid.trans hn'⟩
        obtain ⟨rfl, rfl⟩ := hd.owner n n' hr hr' x hx x' hx' _ (List.mem_cons_of_mem _ hxk)
          List.mem_cons_self
        exact Or.inr ⟨n, hn', x, hx, hxk⟩
      · exact absurd (hown n hr x hx k hxk).symm
          (validateAccessGraph_program.mp hv id hid b hb k hk hg hclosure n x hx)
  · rintro (hc | ⟨n, hn, x, hx, hxk⟩)
    · exact Or.inl hc
    · refine Or.inr ⟨n, before_of_inClosure hac hroots hsplit hn ?_, x, hx, hxk⟩
      rintro rfl
      exact hno x hx (List.mem_cons_of_mem _ hxk)

end Turn

/-! ## Before the register phase -/

section Start

variable {prog prog' : Program} {roots roots' : List TypeId}

theorem log_provideAll (values : List (TypeId × AnyArc)) (c : Container) :
    (provideAll values c).log = c.log := by
  unfold provideAll
  induction values generalizing c with
  | nil => rfl
  | cons v values ih =>
    rw [List.foldl_cons, ih]
    rfl

theorem get_provideAll {c c' : Container} (h : ∀ k, c'.get k = c.get k)
    (values : List (TypeId × AnyArc)) (k : TypeId) :
    (provideAll values c').get k = (provideAll values c).get k := by
  unfold provideAll
  induction values generalizing c c' with
  | nil => exact h k
  | cons v values ih =>
    refine ih fun k => ?_
    unfold Container.get at h
    unfold Container.get Container.provide
    simp only [h]

theorem log_runFactories {fs : List Factory} {c c' : Container}
    (h : runFactories fs c = .ok c') : c'.log = c.log := by
  induction fs generalizing c with
  | nil =>
    cases h
    rfl
  | cons f fs ih =>
    rw [runFactories] at h
    by_cases hc : c.contains f.key = true
    · rw [if_pos hc] at h
      exact ih h
    · rw [if_neg hc, bind_eq_ok] at h
      obtain ⟨value, -, h⟩ := h
      rw [ih h]
      rfl

/-- Bare imports queue no factories. -/
theorem queued_bare (hbare : prog.Bare) (app : AppBuilder prog) : app.queued = app.factories := by
  have hnone : (prog.schedule app.modules).flatMap factoriesOf = [] := by
    rw [List.flatMap_eq_nil_iff]
    intro event he
    obtain ⟨id, rfl⟩ := schedule_bare hbare app.linked he
    rfl
  rw [AppBuilder.queued, hnone, List.append_nil]

theorem schedule_eq_map (hbare : prog.Bare) (hroots : prog.Linked roots) :
    prog.schedule roots = (vertices (prog.schedule roots)).map Sum.inl :=
  (map_inl_vertices fun _ he => schedule_bare hbare hroots he).symm

/-- Reordering permutes the schedule. -/
theorem schedule_perm (hbare : prog.Bare) (hroots : prog.Linked roots) (hre : prog.Reorders prog')
    (hp : roots'.Perm roots) : (prog'.schedule roots').Perm (prog.schedule roots) := by
  have hroots' := linked_reorders hre hp hroots
  rw [schedule_eq_map hbare hroots, schedule_eq_map (bare_reorders hre hbare) hroots']
  refine List.Perm.map _ ((List.perm_ext_iff_of_nodup (schedule_nodup hroots')
    (schedule_nodup hroots)).mpr fun id => ?_)
  rw [mem_vertices, mem_vertices, mem_schedule hroots', mem_schedule hroots,
    reachable_reorders hre hp]

theorem bindings_perm (hbare : prog.Bare) (hroots : prog.Linked roots) (hre : prog.Reorders prog')
    (hp : roots'.Perm roots) :
    ((prog'.schedule roots').flatMap prog'.bindingsOf).Perm
      ((prog.schedule roots).flatMap prog.bindingsOf) := by
  refine (List.Perm.flatMap_left _ fun event _ => ?_).trans
    ((schedule_perm hbare hroots hre hp).flatMap_right _)
  cases event with
  | inl id => exact providersOf_reorders hre id
  | inr d => exact .refl _

end Start

/-! ## Reordering an application -/

/-- The same application, up to the order in which imports, providers and roots are listed. -/
structure AppBuilder.Reorders {prog prog' : Program} (app : AppBuilder prog)
    (app' : AppBuilder prog') : Prop where
  program : prog.Reorders prog'
  seeds : app'.seeds = app.seeds
  factories : app'.factories = app.factories
  overrides : app'.overrides = app.overrides
  modules : app'.modules.Perm app.modules

/-- The key of a seed or of a factory. -/
def AppBuilder.Global {prog : Program} (app : AppBuilder prog) (k : TypeId) : Prop :=
  (∃ s ∈ app.seeds, s.1 = k) ∨ ∃ f ∈ app.factories, f.key = k

/-- Bare imports without cycles, and distinct provider keys. -/
structure Modular {prog : Program} (app : AppBuilder prog) : Prop where
  bare : prog.Bare
  acyclic : Acyclic prog.importsOf
  distinct : DistinctKeys prog app.modules

/-- Moreover each provider registers at most its own key, and nothing else registers it. -/
structure Separate {prog : Program} (app : AppBuilder prog) : Prop extends Modular app where
  own : RegistersOwn prog app.modules
  fresh : ∀ id, ReachableFrom prog.descriptors app.modules id → ∀ b ∈ prog.providersOf id,
    (∀ s ∈ app.seeds, s.1 ≠ b.providedKey) ∧ ∀ f ∈ app.factories, f.key ≠ b.providedKey

/-- The required fields of a binding and what they found. -/
def Built.required (e : Built) : List (InjectField × Option AnyArc) :=
  e.fields.filter fun field => !field.1.optional

/-- Two boots end alike: every key has the same value, the same bindings were built, and their
required fields were given the same. -/
structure SameBoot (c c' : Container) : Prop where
  values : ∀ k, c'.get k = c.get k
  built : (c'.log.map Built.binding).Perm (c.log.map Built.binding)
  required : ∀ e ∈ c.log, ∀ e' ∈ c'.log, e'.binding = e.binding → e'.required = e.required

/-- **Import order never matters**: every reordering of the application boots if it does, and then
ends alike. -/
structure ImportOrderFree {prog : Program} (app : AppBuilder prog) : Prop where
  outcome : ∀ (prog' : Program) (app' : AppBuilder prog') (order order' : HashOrder),
    app.Reorders app' → (app'.build order').isOk = (app.build order).isOk
  same : ∀ (prog' : Program) (app' : AppBuilder prog') (order order' : HashOrder)
    (c c' : Container), app.Reorders app' → app.build order = .ok c →
      app'.build order' = .ok c' → SameBoot c c'

/-- What an application has to be to boot in some order. -/
structure Bootable {prog : Program} (app : AppBuilder prog) : Prop where
  /-- The factories succeed. -/
  factories : ∃ c₀, runFactories app.queued app.container = .ok c₀
  /-- What a provider injects is global, or provided in its module's import closure, or provided by
  no module. -/
  access : ∀ id, ReachableFrom prog.descriptors app.modules id → ∀ b ∈ prog.providersOf id,
    ∀ k ∈ b.provider.injected, app.Global k ∨ InClosureProvided prog id k ∨
      ∀ n, ∀ x ∈ prog.providersOf n, x.providedKey ≠ k
  /-- Each resolver is a provider of a reachable module. -/
  membership : ∀ r ∈ prog.resolvers, ∃ id, ReachableFrom prog.descriptors app.modules id ∧
    ∃ x ∈ prog.providersOf id, x.providedKey = r.resolver
  /-- Each required key that a binding resolves is global, or registered in its module's import
  closure. -/
  supplied : ∀ id, ReachableFrom prog.descriptors app.modules id → ∀ b ∈ prog.providersOf id,
    ∀ f ∈ b.reads, f.optional = false → app.Global f.key ∨
      ∃ n, InClosure prog.descriptors id n ∧ ∃ x ∈ prog.providersOf n, f.key ∈ x.adds
  /-- The providers of each module have an order that repairs what an order can. -/
  listable : ∀ id, ReachableFrom prog.descriptors app.modules id → Listable (prog.providersOf id)

section Boot

variable {prog prog' : Program} {app : AppBuilder prog} {app' : AppBuilder prog'}
  {order order' : HashOrder}

theorem AppBuilder.Reorders.refl (app : AppBuilder prog) : app.Reorders app :=
  ⟨.refl prog, rfl, rfl, rfl, .refl _⟩

theorem AppBuilder.Reorders.symm (h : app.Reorders app') : app'.Reorders app :=
  ⟨h.program.symm, h.seeds.symm, h.factories.symm, h.overrides.symm, h.modules.symm⟩

theorem Modular.reorders (h : Modular app) (hre : app.Reorders app') : Modular app' where
  bare := bare_reorders hre.program h.bare
  acyclic := acyclic_reorders hre.program h.acyclic
  distinct := h.distinct.reorders hre.program hre.modules

theorem global_iff (h : Modular app) {c₀ : Container}
    (hf : runFactories app.queued app.container = .ok c₀) (k : TypeId) :
    c₀.contains k = true ↔ app.Global k := by
  rw [contains_runFactories hf, queued_bare h.bare, AppBuilder.container, contains_provideAll]
  refine or_congr_left ⟨fun hc => hc.resolve_left ?_, Or.inr⟩
  simp [Container.contains, Container.empty]

/-- It starts with an empty log. -/
theorem log_start {c₀ : Container} (hf : runFactories app.queued app.container = .ok c₀) :
    c₀.log = [] := by
  rw [log_runFactories hf, AppBuilder.container, log_provideAll]
  rfl

/-- The register phase starts from the same container. -/
theorem start_reorders (hbare : prog.Bare) (hre : app.Reorders app') :
    runFactories app'.queued app'.container = runFactories app.queued app.container := by
  rw [queued_bare hbare, queued_bare (bare_reorders hre.program hbare), AppBuilder.container,
    hre.seeds, hre.factories]
  rfl

theorem Separate.reorders (h : Separate app) (hre : app.Reorders app') : Separate app' where
  toModular := h.toModular.reorders hre
  own := h.own.reorders hre.program hre.modules
  fresh id hr b hb := by
    rw [reachable_reorders hre.program hre.modules] at hr
    rw [hre.seeds, hre.factories]
    exact h.fresh id hr b ((providersOf_reorders hre.program id).mem_iff.mp hb)

/-- The register phase starts without the providers' keys. -/
theorem Separate.start (h : Separate app) {c₀ : Container}
    (hf : runFactories app.queued app.container = .ok c₀) {id : TypeId}
    (hr : ReachableFrom prog.descriptors app.modules id) {b : ProviderBinding}
    (hb : b ∈ prog.providersOf id) : c₀.contains b.providedKey = false := by
  obtain ⟨hseeds, hfactories⟩ := h.fresh id hr b hb
  rw [← Bool.not_eq_true, contains_runFactories hf, queued_bare h.bare, AppBuilder.container,
    contains_provideAll]
  rintro ((hc | ⟨s, hs, hk⟩) | ⟨f, hf, hk⟩)
  · exact absurd hc (by simp [Container.contains, Container.empty])
  · exact hseeds s hs hk
  · exact hfactories f hf hk

/-- A module's list at its turn, from whatever the modules before it left. -/
theorem Separate.admissible (h : Separate app) {c₀ d : Container}
    (hf : runFactories app.queued app.container = .ok c₀) {pre post : List Import} {id : TypeId}
    (hsplit : prog.schedule app.modules = pre ++ Sum.inl id :: post)
    (hrun : prog.runEvents pre c₀ = .ok d) : Admissible (prog.providersOf id) d := by
  obtain ⟨hr, -⟩ := reachable_of_before app.linked hsplit
  refine ⟨?_, fun b hb => ?_, fun b hb => h.own id hr b hb⟩
  · refine (h.distinct.nodup id hr).map_on fun b hb x hx hk => ?_
    exact (h.distinct.owner id id hr hr b hb x hx _ List.mem_cons_self
      (hk ▸ List.mem_cons_self)).2
  · rw [← Bool.not_eq_true, contains_own_iff h.distinct h.bare app.linked hsplit hrun hb
      List.mem_cons_self, h.start hf hr hb]
    exact Bool.false_ne_true

/-- At corresponding turns a required key that is not the module's own is there in both orders or
in neither. -/
theorem Modular.contains_turn (h : Modular app) (hown : RegistersOwn prog app.modules)
    (hre : app.Reorders app') {c₀ d d' : Container}
    (hv : validateAccessGraph prog.descriptors order app.modules c₀.contains = .ok ())
    {pre post pre' post' : List Import} {id : TypeId}
    (hsplit : prog.schedule app.modules = pre ++ Sum.inl id :: post)
    (hsplit' : prog'.schedule app'.modules = pre' ++ Sum.inl id :: post')
    (hrun : prog.runEvents pre c₀ = .ok d) (hrun' : prog'.runEvents pre' c₀ = .ok d')
    {b : ProviderBinding} (hb : b ∈ prog.providersOf id) {f : InjectField} (hf : f ∈ b.reads)
    (ho : f.optional = false) (hno : ∀ x ∈ prog.providersOf id, f.key ∉ x.keys) :
    d.contains f.key = true ↔ d'.contains f.key = true := by
  have h' := h.reorders hre
  have hown' := hown.reorders hre.program hre.modules
  have hv' : validateAccessGraph prog'.descriptors order app'.modules c₀.contains = .ok () :=
    (validations_reorders hre.program hre.modules c₀.contains).1 hv
  have hmem : ∀ n x, x ∈ prog'.providersOf n ↔ x ∈ prog.providersOf n := fun n _ =>
    (providersOf_reorders hre.program n).mem_iff
  rw [contains_turn_iff h.distinct hown h.bare h.acyclic app.linked hv hsplit hrun hb
      (ProviderBinding.injected_of_reads hf ho) hno,
    contains_turn_iff h'.distinct hown' h'.bare h'.acyclic app'.linked hv' hsplit' hrun'
      ((hmem id b).mpr hb) (ProviderBinding.injected_of_reads hf ho)
      fun x hx => hno x ((hmem id x).mp hx), inClosure_reorders hre.program]
  simp only [hmem]

/-- A boot carries over to every reordering. -/
theorem Separate.builds (h : Separate app)
    (hu : ∀ id, ReachableFrom prog.descriptors app.modules id →
      UngatedNeedNoneOf (prog.providersOf id)) (hre : app.Reorders app')
    (hok : (app.build order).isOk = true) : (app'.build order').isOk = true := by
  obtain ⟨c, hc⟩ := isOk_iff.mp hok
  obtain ⟨c₀, c₁, hf, hrun, hv, hm, -⟩ := (build_eq_ok app).mp hc
  have h' := h.reorders hre
  have hf' := (start_reorders h.bare hre).trans hf
  have hv' : validateAccessGraph prog'.descriptors order' app'.modules c₀.contains = .ok () :=
    (validations_reorders hre.program hre.modules c₀.contains).1 hv
  have hm' : validateResolverMembership prog'.descriptors order' app'.modules prog'.resolvers =
      .ok () := (validations_reorders hre.program hre.modules c₀.contains).2 hm
  obtain ⟨d, hd⟩ : ∃ d, prog'.runEvents (prog'.schedule app'.modules) c₀ = .ok d := by
    refine runEvents_of_turns h'.bare app'.linked fun pre' id post' d' hsplit' hrun' => ?_
    -- the same module's turn in the order that boots
    have hid : Sum.inl id ∈ prog.schedule app.modules := by
      rw [← (schedule_perm h.bare app.linked hre.program hre.modules).mem_iff, hsplit']
      simp
    obtain ⟨pre, post, hsplit⟩ := List.append_of_mem hid
    rw [hsplit] at hrun
    obtain ⟨d, e, hpre, hregister, -⟩ := turn_of_runEvents hrun
    have hperm := providersOf_reorders hre.program id
    have hr := (reachable_of_before app.linked hsplit).1
    refine registers_of_registers (h.admissible hf hsplit hpre)
      ((h'.admissible hf' hsplit' hrun').perm hperm.symm) (hu id hr)
      (fun b hb f hfield ho hno hc => ?_) (.refl _) hperm ⟨e, hregister⟩
    refine (h.contains_turn h.own hre hv hsplit hsplit' hpre hrun' hb hfield ho ?_).mp hc
    intro x hx hk
    rcases List.mem_cons.mp hk with hk | hk
    · exact hno x hx hk.symm
    · exact hno x hx (h.own id hr x hx _ hk).symm
  exact isOk_iff.mpr ⟨_, (build_eq_ok app').mpr ⟨c₀, d, hf', hd, hv', hm', rfl⟩⟩

/-- What a boot has done: registered every provider once, from a container that has none of
their keys. -/
theorem Separate.built (h : Separate app) {c : Container} (hc : app.build order = .ok c) :
    ∃ c₀ done, runFactories app.queued app.container = .ok c₀ ∧ c₀.log = [] ∧
      done.Perm ((prog.schedule app.modules).flatMap prog.bindingsOf) ∧ Resolved c₀ done ∧
      (∀ x ∈ done, ∀ k ∈ x.adds, c₀.contains k = false) ∧
      (∀ x ∈ done, ∀ y ∈ done, ∀ k ∈ x.adds, k ∈ y.adds → x = y) ∧
      c = provideAll app.overrides (c₀.afterAll done) := by
  obtain ⟨c₀, c₁, hf, hrun, -, -, rfl⟩ := (build_eq_ok app).mp hc
  obtain ⟨done, hp, hres, rfl⟩ := runEvents_ok hrun
  have hmem : ∀ x ∈ done, ∃ id, ReachableFrom prog.descriptors app.modules id ∧
      x ∈ prog.providersOf id := by
    intro x hx
    obtain ⟨event, he, hx⟩ := List.mem_flatMap.mp (hp.mem_iff.mp hx)
    obtain ⟨id, rfl⟩ := schedule_bare h.bare app.linked he
    exact ⟨id, (mem_schedule app.linked id).mp he, hx⟩
  refine ⟨c₀, done, hf, log_start hf, hp, hres, fun x hx k hk => ?_,
    fun x hx y hy k hk hk' => ?_, rfl⟩
  · obtain ⟨id, hr, hx⟩ := hmem x hx
    rw [h.own id hr x hx k hk]
    exact h.start hf hr hx
  · obtain ⟨id, hr, hx⟩ := hmem x hx
    obtain ⟨n, hn, hy⟩ := hmem y hy
    exact (h.distinct.owner id n hr hn x hx y hy k (List.mem_cons_of_mem _ hk)
      (List.mem_cons_of_mem _ hk')).2

/-- The required fields of a built binding were given what the container ends up with. -/
theorem required_final {c₀ : Container} {done : List ProviderBinding}
    (hres : Resolved c₀ done) (hfresh : ∀ x ∈ done, ∀ k ∈ x.adds, c₀.contains k = false)
    (huniq : ∀ x ∈ done, ∀ y ∈ done, ∀ k ∈ x.adds, k ∈ y.adds → x = y) {e : Built}
    (he : e ∈ c₀.entries done) :
    e.required = (e.binding.reads.filter fun f => !f.optional).map fun f =>
      (f, (c₀.afterAll done).get f.key) := by
  obtain ⟨pre, b, post, rfl, rfl⟩ := Container.mem_entries he
  unfold Built.required
  rw [List.filter_map]
  refine List.map_congr_left fun f hf => ?_
  obtain ⟨hf, ho⟩ := List.mem_filter.mp hf
  rw [Container.get_final (fun x hx y hy => huniq x hx y hy f.key)
    (fun x hx => hfresh x hx f.key) (hres.split f hf (by simpa using ho))]

/-- Two orders that boot end alike. -/
theorem Separate.sameBoot (h : Separate app) (hre : app.Reorders app') {c c' : Container}
    (hc : app.build order = .ok c) (hc' : app'.build order' = .ok c') : SameBoot c c' := by
  obtain ⟨c₀, done, hf, hlog, hp, hres, hfresh, huniq, rfl⟩ := h.built hc
  obtain ⟨c₀', done', hf', -, hp', hres', hfresh', huniq', rfl⟩ := (h.reorders hre).built hc'
  have hstart : c₀' = c₀ := by
    rw [start_reorders h.bare hre, hf] at hf'
    exact (Except.ok.inj hf').symm
  subst hstart
  have hdone : done'.Perm done :=
    hp'.trans ((bindings_perm h.bare app.linked hre.program hre.modules).trans hp.symm)
  have hvalues : ∀ k, (c₀'.afterAll done').get k = (c₀'.afterAll done).get k := fun k =>
    Container.get_afterAll_perm hdone fun x hx y hy => huniq x hx y hy k
  refine ⟨fun k => ?_, ?_, fun e he e' he' hbinding => ?_⟩
  · rw [hre.overrides]
    exact get_provideAll hvalues app.overrides k
  · rw [log_provideAll, log_provideAll, Container.log_afterAll, Container.log_afterAll, hlog,
      List.nil_append, List.nil_append, Container.binding_entries, Container.binding_entries]
    exact hdone
  · rw [log_provideAll, Container.log_afterAll, hlog, List.nil_append] at he he'
    rw [required_final hres hfresh huniq he, required_final hres' hfresh' huniq' he', hbinding]
    exact List.map_congr_left fun f _ => by rw [hvalues]

/-- An ungated binding that does not resolve, listed first, panics. -/
theorem registerProviders_head {b : ProviderBinding} {bs : List ProviderBinding}
    (hg : b.ungated = true) (hres : ¬ c.Resolves b) :
    ∃ s, registerProviders module (b :: bs) c = .error s := by
  obtain ⟨message, hm⟩ := (register_eq b c).2 hres
  have hready := ready_of_ungated hg c ((b :: bs).map ProviderBinding.providedKey)
  refine ⟨⟨.expect message, c.log⟩, ?_⟩
  rw [registerProviders, fixpointLoop, round, if_pos hready, hm]
  rfl

/-! ### Listing the providers anew -/

/-- The module with its providers listed as `lists` has them, if these are its providers. -/
def relist (lists : TypeId → List ProviderBinding) (m : ModuleDecl) : ModuleDecl :=
  if (lists m.id).Perm m.providers then { m with providers := lists m.id } else m

theorem reorders_relist (lists : TypeId → List ProviderBinding) (m : ModuleDecl) :
    m.Reorders (relist lists m) := by
  unfold relist
  split
  · rename_i h
    exact ⟨rfl, rfl, .refl _, h⟩
  · exact ⟨rfl, rfl, .refl _, .refl _⟩

theorem providersOf_relist {lists : TypeId → List ProviderBinding}
    (hlists : ∀ id, (lists id).Perm (prog.providersOf id)) (id : TypeId) :
    (prog.reorder (relist lists) (reorders_relist lists)).providersOf id = lists id := by
  have hid := hlists id
  unfold Program.providersOf at *
  rw [find_reorder]
  cases hf : prog.find id with
  | none =>
    rw [hf] at hid
    exact (List.perm_nil.mp hid).symm
  | some m =>
    rw [hf, ← (find_eq_some.mp hf).2] at hid
    simp only [Option.map_some, relist]
    rw [if_pos hid, (find_eq_some.mp hf).2]

/-- The application whose modules list their providers so. -/
def AppBuilder.relist (app : AppBuilder prog) (lists : TypeId → List ProviderBinding) :
    AppBuilder (prog.reorder (Core.relist lists) (reorders_relist lists)) :=
  { app with linked := linked_reorders (reorders_reorder prog _ _) (.refl _) app.linked }

theorem reorders_appRelist (app : AppBuilder prog) (lists : TypeId → List ProviderBinding) :
    app.Reorders (app.relist lists) :=
  ⟨reorders_reorder prog _ _, rfl, rfl, rfl, .refl _⟩

/-- An ungated binding that needs a key of its own list panics when it is listed first. -/
theorem Separate.panics (h : Separate app) {id : TypeId}
    (hr : ReachableFrom prog.descriptors app.modules id) {b x : ProviderBinding}
    (hb : b ∈ prog.providersOf id) (hg : b.ungated = true) {f : InjectField} (hf : f ∈ b.reads)
    (ho : f.optional = false) (hx : x ∈ prog.providersOf id) (hk : x.providedKey = f.key) :
    ∃ (prog' : Program) (app' : AppBuilder prog'), app.Reorders app' ∧
      (app'.build order).isOk = false := by
  let lists : TypeId → List ProviderBinding := fun n =>
    if n = id then b :: (prog.providersOf id).erase b else prog.providersOf n
  have hlists : ∀ n, (lists n).Perm (prog.providersOf n) := by
    intro n
    by_cases hn : n = id
    · subst hn
      simp only [lists, if_pos]
      exact (List.perm_cons_erase hb).symm
    · simp only [lists, if_neg hn]
      exact .refl _
  have hre := reorders_appRelist app lists
  refine ⟨_, app.relist lists, hre, ?_⟩
  rw [← Bool.not_eq_true, isOk_iff]
  rintro ⟨c, hc⟩
  obtain ⟨c₀, c₁, hstart, hrun, -, -, -⟩ := (build_eq_ok (app.relist lists)).mp hc
  have h' := h.reorders hre
  have hr' := (reachable_reorders hre.program hre.modules id).mpr hr
  obtain ⟨pre, post, hsplit⟩ :=
    List.append_of_mem ((mem_schedule (app.relist lists).linked id).mpr hr')
  rw [hsplit] at hrun
  obtain ⟨d, d', hd, hregister, -⟩ := turn_of_runEvents hrun
  have hx' := (providersOf_reorders hre.program id).mem_iff.mpr hx
  have hnot : ¬ d.Resolves b := by
    intro hres
    have hc := hres f hf ho
    rw [← hk, contains_own_iff h'.distinct h'.bare (app.relist lists).linked hsplit hd hx'
      List.mem_cons_self, h'.start hstart hr' hx'] at hc
    exact Bool.false_ne_true hc
  obtain ⟨s, hs⟩ : ∃ s, registerProviders (Program.nameOf _ id)
      (b :: (prog.providersOf id).erase b) d = .error s := registerProviders_head hg hnot
  rw [providersOf_relist hlists] at hregister
  simp only [lists, if_pos] at hregister
  rw [hregister] at hs
  exact nomatch hs

/-! ### Booting in some order -/

/-- What a module's turn supplies its list with, in every order. -/
theorem Separate.supplied_iff (h : Separate app) {c₀ d : Container}
    (hf : runFactories app.queued app.container = .ok c₀)
    (hv : validateAccessGraph prog.descriptors order app.modules c₀.contains = .ok ())
    {pre post : List Import} {id : TypeId}
    (hsplit : prog.schedule app.modules = pre ++ Sum.inl id :: post)
    (hrun : prog.runEvents pre c₀ = .ok d) :
    Supplied (prog.providersOf id) d ↔
      ∀ b ∈ prog.providersOf id, ∀ f ∈ b.reads, f.optional = false → app.Global f.key ∨
        ∃ n, InClosure prog.descriptors id n ∧ ∃ x ∈ prog.providersOf n, f.key ∈ x.adds := by
  obtain ⟨hr, -⟩ := reachable_of_before app.linked hsplit
  refine forall₂_congr fun b hb => forall₂_congr fun f hfield => forall_congr' fun ho => ?_
  by_cases hown : ∃ x ∈ prog.providersOf id, x.providedKey = f.key
  · -- a key of the list itself is not there before its turn, and nobody else registers it
    obtain ⟨x, hx, hk⟩ := hown
    have hc₀ : ¬ app.Global f.key := by
      rw [← global_iff h.toModular hf, ← hk, h.start hf hr hx]
      exact Bool.false_ne_true
    have hd : ¬ d.contains f.key = true := by
      rw [← hk, (h.admissible hf hsplit hrun).fresh x hx]
      exact Bool.false_ne_true
    rw [or_iff_right hd, or_iff_right hc₀]
    constructor
    · rintro ⟨y, hy, hadds⟩
      exact ⟨id, .refl, y, hy, hadds⟩
    · rintro ⟨n, hn, y, hy, hadds⟩
      obtain ⟨root, hroot, hid⟩ := hr
      obtain ⟨rfl, rfl⟩ := h.distinct.owner id n ⟨root, hroot, hid⟩
        ⟨root, hroot, hid.trans hn⟩ x hx y hy f.key (hk ▸ List.mem_cons_self)
        (List.mem_cons_of_mem _ hadds)
      exact ⟨x, hx, hadds⟩
  · have hno : ∀ x ∈ prog.providersOf id, f.key ∉ x.keys := by
      intro x hx hk
      rcases List.mem_cons.mp hk with hk | hk
      · exact hown ⟨x, hx, hk.symm⟩
      · exact hown ⟨x, hx, (h.own id hr x hx _ hk).symm⟩
    rw [contains_turn_iff h.distinct h.own h.bare h.acyclic app.linked hv hsplit hrun hb
      (ProviderBinding.injected_of_reads hfield ho) hno, global_iff h.toModular hf]
    refine or_iff_left ?_
    rintro ⟨x, hx, hk⟩
    exact hno x hx (List.mem_cons_of_mem _ hk)

/-- The access check, over the container that the factories leave. -/
theorem Modular.access_iff (h : Modular app) {c₀ : Container}
    (hf : runFactories app.queued app.container = .ok c₀) :
    validateAccessGraph prog.descriptors order app.modules c₀.contains = .ok () ↔
      ∀ id, ReachableFrom prog.descriptors app.modules id → ∀ b ∈ prog.providersOf id,
        ∀ k ∈ b.provider.injected, app.Global k ∨ InClosureProvided prog id k ∨
          ∀ n, ∀ x ∈ prog.providersOf n, x.providedKey ≠ k := by
  rw [validateAccessGraph_program]
  refine forall₂_congr fun id _ => forall₂_congr fun b _ => forall₂_congr fun k _ => ?_
  rw [← global_iff h hf, ← Bool.not_eq_true]
  tauto

theorem Bootable.reorders (hb : Bootable app) (h : Modular app) (hre : app.Reorders app') :
    Bootable app' where
  factories := by
    rw [start_reorders h.bare hre]
    exact hb.factories
  access := by
    simp only [reachable_reorders hre.program hre.modules, InClosureProvided, AppBuilder.Global,
      (providersOf_reorders hre.program _).mem_iff, inClosure_reorders hre.program, hre.seeds,
      hre.factories]
    exact hb.access
  membership := by
    simp only [hre.program.resolvers, reachable_reorders hre.program hre.modules,
      (providersOf_reorders hre.program _).mem_iff]
    exact hb.membership
  supplied := by
    simp only [reachable_reorders hre.program hre.modules, AppBuilder.Global,
      (providersOf_reorders hre.program _).mem_iff, inClosure_reorders hre.program, hre.seeds,
      hre.factories]
    exact hb.supplied
  listable id hr := by
    rw [reachable_reorders hre.program hre.modules] at hr
    exact (hb.listable id hr).perm (providersOf_reorders hre.program id)

/-- An application that boots is bootable. -/
theorem Separate.bootable (h : Separate app) (hok : (app.build order).isOk = true) :
    Bootable app := by
  obtain ⟨c, hc⟩ := isOk_iff.mp hok
  obtain ⟨c₀, c₁, hf, hrun, hv, hm, -⟩ := (build_eq_ok app).mp hc
  -- each reachable module has registered at its turn
  have hturn : ∀ id, ReachableFrom prog.descriptors app.modules id →
      ∃ pre post d, prog.schedule app.modules = pre ++ Sum.inl id :: post ∧
        prog.runEvents pre c₀ = .ok d ∧ Supplied (prog.providersOf id) d ∧
          Listable (prog.providersOf id) := by
    intro id hr
    obtain ⟨pre, post, hsplit⟩ := List.append_of_mem ((mem_schedule app.linked id).mpr hr)
    rw [hsplit] at hrun
    obtain ⟨d, e, hpre, hregister, -⟩ := turn_of_runEvents hrun
    exact ⟨pre, post, d, hsplit, hpre, (exists_perm_registers_iff (h.admissible hf hsplit hpre)).mp
      ⟨_, .refl _, isOk_iff.mpr ⟨e, hregister⟩⟩⟩
  refine ⟨⟨c₀, hf⟩, (h.toModular.access_iff hf).mp hv,
    validateResolverMembership_program.mp hm, fun id hr => ?_, fun id hr => ?_⟩
  · obtain ⟨pre, post, d, hsplit, hpre, hs, -⟩ := hturn id hr
    exact (h.supplied_iff hf hv hsplit hpre).mp hs
  · obtain ⟨pre, post, d, -, -, -, hl⟩ := hturn id hr
    exact hl

/-- A bootable application boots, with each module's providers in an order that registers. -/
theorem Separate.boots (h : Separate app) (hb : Bootable app) :
    ∃ (prog' : Program) (app' : AppBuilder prog'), app.Reorders app' ∧
      ∀ order, (app'.build order).isOk = true := by
  have hlist : ∀ id, ∃ qs : List ProviderBinding, qs.Perm (prog.providersOf id) ∧
      (ReachableFrom prog.descriptors app.modules id → ∀ module c,
        Admissible (prog.providersOf id) c → Supplied (prog.providersOf id) c →
          (registerProviders module qs c).isOk = true) := by
    intro id
    by_cases hr : ReachableFrom prog.descriptors app.modules id
    · obtain ⟨qs, hq, hregisters⟩ := (hb.listable id hr).registers
      exact ⟨qs, hq, fun _ => hregisters⟩
    · exact ⟨_, .refl _, fun hr' => absurd hr' hr⟩
  choose lists hlists hregisters using hlist
  have hre := reorders_appRelist app lists
  have h' := h.reorders hre
  have hb' := hb.reorders h.toModular hre
  refine ⟨_, app.relist lists, hre, fun order => ?_⟩
  obtain ⟨c₀, hf⟩ := hb'.factories
  have hv : validateAccessGraph _ order (app.relist lists).modules c₀.contains = .ok () :=
    (h'.toModular.access_iff hf).mpr hb'.access
  have hm : validateResolverMembership _ order (app.relist lists).modules _ = .ok () :=
    validateResolverMembership_program.mpr hb'.membership
  obtain ⟨d, hd⟩ : ∃ d, Program.runEvents _
      (Program.schedule _ (app.relist lists).modules) c₀ = .ok d := by
    refine runEvents_of_turns h'.bare (app.relist lists).linked fun pre id post d hsplit hrun => ?_
    obtain ⟨hr, -⟩ := reachable_of_before (app.relist lists).linked hsplit
    have hperm := (providersOf_reorders hre.program id).symm
    have hs := (h'.supplied_iff hf hv hsplit hrun).mpr (hb'.supplied id hr)
    rw [reachable_reorders hre.program hre.modules] at hr
    rw [providersOf_relist hlists]
    exact isOk_iff.mp (hregisters id hr _ d ((h'.admissible hf hsplit hrun).perm hperm)
      (hs.perm hperm))
  exact isOk_iff.mpr ⟨_, (build_eq_ok (app.relist lists)).mpr ⟨c₀, d, hf, hd, hv, hm, rfl⟩⟩

/-- **Which applications boot in some order.** -/
theorem exists_boots_iff (h : Separate app) :
    (∃ (prog' : Program) (app' : AppBuilder prog') (order : HashOrder), app.Reorders app' ∧
        (app'.build order).isOk = true) ↔ Bootable app := by
  constructor
  · rintro ⟨prog', app', order, hre, hok⟩
    exact ((h.reorders hre).bootable hok).reorders (h.toModular.reorders hre) hre.symm
  · intro hb
    obtain ⟨prog', app', hre, hok⟩ := h.boots hb
    exact ⟨prog', app', .newestFirst, hre, hok .newestFirst⟩

/-! ### When the order does not matter -/

/-- It does not when ungated bindings need nothing of their own lists. -/
theorem Separate.free_of_ungated (h : Separate app)
    (hu : ∀ id, ReachableFrom prog.descriptors app.modules id →
      UngatedNeedNoneOf (prog.providersOf id)) : ImportOrderFree app := by
  refine ⟨fun prog' app' order order' hre => Bool.eq_iff_iff.mpr ⟨fun hok => ?_, fun hok => ?_⟩,
    fun prog' app' order order' c c' hre hc hc' => h.sameBoot hre hc hc'⟩
  · refine (h.reorders hre).builds (fun id hr => ?_) hre.symm hok
    rw [reachable_reorders hre.program hre.modules] at hr
    intro b hb hg f hf ho x hx
    have hmem := providersOf_reorders hre.program id
    exact hu id hr b (hmem.mem_iff.mp hb) hg f hf ho x (hmem.mem_iff.mp hx)
  · exact h.builds hu hre hok

/-- Nor when no order boots. -/
theorem Separate.free_of_not_bootable (h : Separate app) (hb : ¬ Bootable app) :
    ImportOrderFree app := by
  have hnone : ∀ {prog' : Program} {app' : AppBuilder prog'} {order : HashOrder},
      app.Reorders app' → ¬ (app'.build order).isOk = true := fun hre hok =>
    hb ((exists_boots_iff h).mp ⟨_, _, _, hre, hok⟩)
  refine ⟨fun prog' app' order order' hre => ?_, fun prog' app' order order' c c' _ hc _ => ?_⟩
  · exact Bool.eq_iff_iff.mpr ⟨fun hok => absurd hok (hnone hre),
      fun hok => absurd hok (hnone (.refl app))⟩
  · exact absurd (isOk_iff.mpr ⟨c, hc⟩) (hnone (.refl app))

/-- **When import order does not matter.** For an application of bare, acyclic imports with
distinct provider keys: the order of imports, providers and roots changes neither the outcome of
the boot nor what it builds iff no ungated binding needs a key its own module provides, or the
application boots in no order. -/
theorem import_order_free {prog : Program} (app : AppBuilder prog) (h : Separate app) :
    ImportOrderFree app ↔ (∀ id, ReachableFrom prog.descriptors app.modules id →
      UngatedNeedNoneOf (prog.providersOf id)) ∨ ¬ Bootable app := by
  constructor
  · intro hfree
    refine or_iff_not_imp_right.mpr fun hb id hr b hb' hg f hf ho x hx hk => ?_
    obtain ⟨prog', app', hre, hok⟩ := h.boots (not_not.mp hb)
    obtain ⟨prog₂, app₂, hre₂, hbad⟩ : ∃ (prog₂ : Program) (app₂ : AppBuilder prog₂),
        app.Reorders app₂ ∧ (app₂.build .newestFirst).isOk = false :=
      h.panics hr hb' hg hf ho hx hk
    rw [hfree.outcome prog₂ app₂ .newestFirst .newestFirst hre₂,
      ← hfree.outcome prog' app' .newestFirst .newestFirst hre, hok] at hbad
    exact absurd hbad (by simp)
  · rintro (hu | hb)
    · exact h.free_of_ungated hu
    · exact h.free_of_not_bootable hb

/-- `RepoModule`, and `UsersModule` that imports it. -/
def usersProgram : Program where
  modules := [⟨1, "UsersModule", [Sum.inl 2], [usersBinding]⟩, ⟨2, "RepoModule", [], [repoBinding]⟩]
  resolvers := []
  distinct := by decide
  linked m hm id hid := by
    simp only [List.mem_cons, List.not_mem_nil, or_false] at hm
    rcases hm with rfl | rfl
    · simp only [List.mem_singleton, Sum.inl.injEq] at hid
      rw [hid]
      decide
    · exact absurd hid List.not_mem_nil

/-- `AppModule` with a request-scoped session bound as a trait object, after its `Repo`. -/
def sessionProgram : Program where
  modules := [⟨1, "AppModule", [], [repoBinding, sessionBinding]⟩]
  resolvers := []
  distinct := by decide
  linked m hm id hid := by
    rw [List.mem_singleton.mp hm] at hid
    exact absurd hid List.not_mem_nil

def usersApp : AppBuilder usersProgram where
  seeds := []
  factories := []
  modules := [1]
  overrides := []
  linked r hr := by
    rw [List.mem_singleton.mp hr]
    decide

def sessionApp : AppBuilder sessionProgram where
  seeds := []
  factories := []
  modules := [1]
  overrides := []
  linked r hr := by
    rw [List.mem_singleton.mp hr]
    decide

theorem usersProgram_providers {id : TypeId} {b : ProviderBinding}
    (h : b ∈ usersProgram.providersOf id) :
    (id = 1 ∧ b = usersBinding) ∨ (id = 2 ∧ b = repoBinding) := by
  obtain ⟨m, hm, rfl, hb⟩ := mem_providersOf.mp h
  simp only [usersProgram, List.mem_cons, List.not_mem_nil, or_false] at hm
  rcases hm with rfl | rfl
  · exact Or.inl ⟨rfl, by simpa using hb⟩
  · exact Or.inr ⟨rfl, by simpa using hb⟩

theorem usersApp_separate : Separate usersApp where
  bare m hm i hi := by
    simp only [usersProgram, List.mem_cons, List.not_mem_nil, or_false] at hm
    rcases hm with rfl | rfl
    · exact ⟨2, by simpa using hi⟩
    · exact absurd hi List.not_mem_nil
  acyclic := by
    -- the only import goes from module 1 to module 2
    refine not_transGen_of_rank (fun v => 2 - v) fun v u hvu => ?_
    obtain ⟨m, hm, rfl, hu⟩ := mem_importsOf.mp (mem_vertices.mp hvu)
    simp only [usersProgram, List.mem_cons, List.not_mem_nil, or_false] at hm
    rcases hm with rfl | rfl
    · simp only [List.mem_singleton, Sum.inl.injEq] at hu
      rw [hu]
      decide
    · exact absurd hu List.not_mem_nil
  distinct := by
    refine ⟨fun id _ => nodup_providersOf (by decide) id, fun id n _ _ b hb x hx k hk hk' => ?_⟩
    · rcases usersProgram_providers hb with ⟨rfl, rfl⟩ | ⟨rfl, rfl⟩ <;>
        rcases usersProgram_providers hx with ⟨rfl, rfl⟩ | ⟨rfl, rfl⟩
      · exact ⟨rfl, rfl⟩
      · exact absurd hk' (by revert k; decide)
      · exact absurd hk' (by revert k; decide)
      · exact ⟨rfl, rfl⟩
  own id _ b hb := by
    rcases usersProgram_providers hb with ⟨-, rfl⟩ | ⟨-, rfl⟩ <;> decide
  fresh id _ b _ := ⟨fun _ hs => absurd hs List.not_mem_nil, fun _ hf => absurd hf List.not_mem_nil⟩

theorem usersApp_importOrderFree : ImportOrderFree usersApp := by
  refine (import_order_free usersApp usersApp_separate).2 (Or.inl fun id _ b hb hg => ?_)
  rcases usersProgram_providers hb with ⟨-, rfl⟩ | ⟨-, rfl⟩ <;> exact absurd hg (by decide)

theorem sessionProgram_providers {id : TypeId} {b : ProviderBinding}
    (h : b ∈ sessionProgram.providersOf id) :
    id = 1 ∧ (b = repoBinding ∨ b = sessionBinding) := by
  obtain ⟨m, hm, rfl, hb⟩ := mem_providersOf.mp h
  rw [List.mem_singleton.mp hm] at hb ⊢
  exact ⟨rfl, by simpa using hb⟩

theorem sessionApp_separate : Separate sessionApp where
  bare m hm i hi := by
    rw [List.mem_singleton.mp hm] at hi
    exact absurd hi List.not_mem_nil
  acyclic := by
    refine not_transGen_of_rank id fun v u hvu => ?_
    obtain ⟨m, hm, -, hu⟩ := mem_importsOf.mp (mem_vertices.mp hvu)
    rw [List.mem_singleton.mp hm] at hu
    exact absurd hu List.not_mem_nil
  distinct := by
    refine ⟨fun id _ => nodup_providersOf (by decide) id, fun id n _ _ b hb x hx k hk hk' => ?_⟩
    · obtain ⟨rfl, rfl | rfl⟩ := sessionProgram_providers hb <;>
        obtain ⟨rfl, rfl | rfl⟩ := sessionProgram_providers hx
      · exact ⟨rfl, rfl⟩
      · exact absurd hk' (by revert k; decide)
      · exact absurd hk' (by revert k; decide)
      · exact ⟨rfl, rfl⟩
  own id _ b hb := by
    obtain ⟨-, rfl | rfl⟩ := sessionProgram_providers hb <;> decide
  fresh id _ b _ := ⟨fun _ hs => absurd hs List.not_mem_nil, fun _ hf => absurd hf List.not_mem_nil⟩

/-- `[Repo, Session as dyn SessionApi]` boots; the same list the other way round panics. -/
theorem sessionApp_listing_matters : Separate sessionApp ∧ ¬ ImportOrderFree sessionApp := by
  refine ⟨sessionApp_separate, fun hfree => ?_⟩
  have hok : (sessionApp.build .newestFirst).isOk = true := by decide
  obtain ⟨prog', app', hre, hbad⟩ : ∃ (prog' : Program) (app' : AppBuilder prog'),
      sessionApp.Reorders app' ∧ (app'.build .newestFirst).isOk = false :=
    sessionApp_separate.panics ⟨1, List.mem_singleton.mpr rfl, .refl⟩
      (List.mem_cons_of_mem _ List.mem_cons_self) rfl List.mem_cons_self rfl List.mem_cons_self rfl
  rw [hfree.outcome prog' app' .newestFirst .newestFirst hre, hok] at hbad
  exact absurd hbad (by simp)

end Boot

end Nestrs.Core
