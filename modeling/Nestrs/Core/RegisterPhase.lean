import Nestrs.Core.Reorder
import Nestrs.Core.Stall

/-!
# The register phase against the access contract

The access check accepts a dependency that some module of the import closure provides. The
register phase needs more: the provider has to be in the container when the module's own fixpoint
runs. `Module::register` marks a module before it composes its imports, so inside an import cycle
a module's fixpoint can run before the one it depends on has begun; which one comes first is
decided by the root that enters the cycle.

Two more kinds of dependency pass the check and are never there: the key of an interceptor, which
is listed and built but not provided, and a key of its own module for a trait-object binding the
fixpoint does not wait for, unless what it needs is listed before it and registered by the first
pass over the list.

Results:
* `registers_of_served`, `served_of_registers`: a fixpoint succeeds iff each required key a binding
  resolves is in the builder or, for a binding that is waited for, registered by the list, or, for
  one that is not, there when the first pass comes to it;
* **`register_phase_iff_served`**: the register phase builds every provider iff that holds of every
  module at its turn in the schedule.
-/

namespace Nestrs.Core

open Nestrs.Lib

/-- One binding resolves a key the other is listed under. -/
def DependsOn (b x : ProviderBinding) : Prop := ∃ f ∈ b.reads, f.key = x.providedKey

/-- `b` has to come after `x`, of the same list: it resolves a required field under the key of `x`
or, where the loop waits for `b`, an optional one. -/
def ComesAfter (ps : List ProviderBinding) (b x : ProviderBinding) : Prop :=
  b ∈ ps ∧ x ∈ ps ∧ ∃ f ∈ b.reads, f.key = x.providedKey ∧ (f.optional = true → b.ungated = false)

/-! ## One module -/

section Module

variable {module : String} {ps : List ProviderBinding} {c : Container}

/-- A binding that registers a key it is not listed under is always ready. -/
theorem ready_of_adds {x : ProviderBinding} {k : TypeId} (hk : k ∈ x.adds)
    (hne : x.providedKey ≠ k) (d : Container) (keys : List TypeId) : ready d keys x = true := by
  cases x with
  | dyn p traitName traitKey => exact absurd (List.mem_singleton.mp hk).symm hne
  | concrete p =>
    have heager : p.eager = false := by
      obtain ⟨type, name, fields, kind⟩ := p
      cases kind with
      | injectable => exact absurd (List.mem_singleton.mp hk).symm hne
      | interceptor => exact absurd hk List.not_mem_nil
      | requestScoped | controller | gateway | resolver | cronJob | processor | mcp | onEvent =>
        rfl
    simp [ready, ProviderBinding.provider, Provider.dependencies, Provider.optionalDependencies,
      heager]

/-- Each required key that a binding of the list resolves is there: in the builder, or registered by
the list if the binding is waited for; if it is not, registered by what the first pass over the list
finds ready before it. -/
def ServedBy (ps : List ProviderBinding) (c : Container) : Prop :=
  (∀ b ∈ ps, b.ungated = false → ∀ f ∈ b.reads, f.optional = false →
      c.contains f.key = true ∨ ∃ x ∈ ps, f.key ∈ x.adds) ∧
    UngatedAfter c (ps.map ProviderBinding.providedKey) [] ps

theorem early_congr {d : Container} (h : ∀ k, c.contains k = true → d.contains k = true)
    {keys : List TypeId} {pre : List ProviderBinding} {k : TypeId} (hk : Early c keys pre k) :
    Early d keys pre k := by
  induction hk with
  | builder hc => exact .builder (h _ hc)
  | listed hk hreq hopt ihreq ihopt => exact .listed hk ihreq ihopt

theorem servedBy_congr {d : Container} (h : ∀ k, c.contains k = true → d.contains k = true)
    (hs : ServedBy ps c) : ServedBy ps d :=
  ⟨fun b hb hg f hf ho => (hs.1 b hb hg f hf ho).imp_left (h f.key),
    fun before b behind hsplit hg f hf ho =>
      early_congr h (hs.2 before b behind hsplit hg f hf ho)⟩

/-- The first round ends without a panic iff each ungated binding comes after what it requires. -/
theorem first_round_iff : (round (ps.map ProviderBinding.providedKey) ps c).isOk = true ↔
    UngatedAfter c (ps.map ProviderBinding.providedKey) [] ps :=
  round_isOk_iff ps [] c fun k => ⟨.builder, fun hk => by
    generalize hl : ([] : List ProviderBinding) = pre at hk
    cases hk with
    | builder hk => exact hk
    | listed => exact absurd hl (by simp)⟩

/-- A list that is served, and in which nothing comes after itself, registers. -/
theorem registers_of_served (h : ServedBy ps c)
    (hac : ∀ b, ¬ Relation.TransGen (ComesAfter ps) b b) :
    ∃ d, registerProviders module ps c = .ok d := by
  rcases registers_or_stalls module (first_round_iff.mpr h.2) with
    hok | ⟨done, rest, hp, hne, hstuck⟩
  · exact isOk_iff.mp hok
  · exfalso
    have hrest : ∀ b ∈ rest, b ∈ ps := fun b hb => hp.mem_iff.mp (List.mem_append_right _ hb)
    obtain ⟨b, hb, hsink⟩ := exists_waits_for_none hac hne
    have hgated : b.ungated = false := by
      by_contra hg
      have hready := ready_of_ungated (by simpa using hg) (c.afterAll done)
        (rest.map ProviderBinding.providedKey)
      rw [hstuck b hb] at hready
      exact Bool.false_ne_true hready
    have hnone : ∀ x ∈ rest, ¬ DependsOn b x := fun x hx ⟨f, hf, hk⟩ =>
      hsink x hx ⟨hrest b hb, hrest x hx, f, hf, hk, fun _ => hgated⟩
    have hready : ready (c.afterAll done) (rest.map ProviderBinding.providedKey) b = true := by
      refine ready_iff.mpr ⟨fun r hr => ?_, fun o ho => Or.inr fun hmem => ?_⟩
      · obtain ⟨f, hf, hopt, rfl⟩ := ProviderBinding.reads_of_dependencies.1 hr
        rw [Container.contains_afterAll]
        rcases h.1 b (hrest b hb) hgated f hf hopt with hc | ⟨x, hx, hk⟩
        · exact Or.inl hc
        · rcases List.mem_append.mp (hp.mem_iff.mpr hx) with hx | hx
          · exact Or.inr ⟨x, hx, hk⟩
          -- a provider left over: `b` waits for it, or it was ready all along
          · by_cases hown : x.providedKey = f.key
            · exact absurd ⟨f, hf, hown.symm⟩ (hnone x hx)
            · have hx' := hstuck x hx
              rw [ready_of_adds hk hown] at hx'
              exact absurd hx' (by simp)
      · obtain ⟨f, hf, -, rfl⟩ := ProviderBinding.reads_of_dependencies.2 ho
        obtain ⟨x, hx, hk⟩ := List.mem_map.mp hmem
        exact hnone x hx ⟨f, hf, hk.symm⟩
    rw [hstuck b hb] at hready
    exact absurd hready (by simp)

/-- A list that registers is served. -/
theorem served_of_registers {d : Container} (h : registerProviders module ps c = .ok d) :
    ServedBy ps c := by
  constructor
  · intro b hb hg f hf ho
    obtain ⟨done, hp, hreg, -⟩ := registerProviders_ok h
    obtain ⟨pre, post, rfl⟩ := List.append_of_mem (hp.mem_iff.mpr hb)
    refine ((Container.contains_afterAll c pre f.key).mp (hreg.split.2 f hf ho)).imp_right ?_
    rintro ⟨x, hx, hk⟩
    exact ⟨x, hp.mem_iff.mp (List.mem_append_left _ hx), hk⟩
  · refine first_round_iff.mp ?_
    unfold registerProviders at h
    rw [fixpointLoop, bind_eq_ok] at h
    obtain ⟨r, hr, -⟩ := h
    exact isOk_iff.mpr ⟨r, hr⟩

/-- `Session as dyn SessionApi` is served where it is listed after `Repo`. -/
example : ServedBy [repoBinding, sessionBinding] Container.empty := by
  obtain ⟨d, hd⟩ : ∃ d, registerProviders "AppModule" [repoBinding, sessionBinding]
    Container.empty = .ok d := isOk_iff.mp (by decide)
  exact served_of_registers hd

end Module

/-! ## The whole phase -/

/-- Every import is a bare type. -/
def Program.Bare (prog : Program) : Prop :=
  ∀ m ∈ prog.modules, ∀ i ∈ m.imports, ∃ id, i = Sum.inl id

/-- A provider of a module the roots reach. -/
def Program.Provides (prog : Program) (roots : List TypeId) (b : ProviderBinding) : Prop :=
  ∃ id, ReachableFrom prog.descriptors roots id ∧ b ∈ prog.providersOf id

/-- The required and optional dependencies among the providers have no cycle. -/
def Program.AcyclicDependencies (prog : Program) (roots : List TypeId) : Prop :=
  ∀ b, ¬ Relation.TransGen
    (fun b x => prog.Provides roots b ∧ prog.Provides roots x ∧ DependsOn b x) b b

/-- The register phase from a container returns, with every provider of every reachable module
in the log. -/
def BuildsAll (prog : Program) (roots : List TypeId) (c : Container) : Prop :=
  ∃ builder, registerModules prog roots ⟨c, [], [], []⟩ = .ok builder ∧
    ∀ b, prog.Provides roots b → b ∈ builder.container.log.map Built.binding

/-- The builder a module finds, if the events before its turn all go through: `c` with what the
modules of these events list. -/
def Program.before (prog : Program) (pre : List Import) (c : Container) : Container :=
  c.afterAll (pre.flatMap prog.bindingsOf)

/-- **Every module is served at its turn**: by the global keys, by the modules that the walk over
the imports finishes earlier, and by its own list as far as the fixpoint waits or the list puts what
is needed first. -/
def Served (prog : Program) (roots : List TypeId) (c : Container) : Prop :=
  ∀ pre id post, prog.schedule roots = pre ++ Sum.inl id :: post →
    ServedBy (prog.providersOf id) (prog.before pre c)

section Phase

variable {prog : Program} {roots : List TypeId} {c : Container}

theorem bare_reorders {prog' : Program} (h : prog.Reorders prog') (hbare : prog.Bare) :
    prog'.Bare := by
  intro m' hm' i hi
  have himp : i ∈ prog.importsOf m'.id := by
    rw [← importsOf_eq hm'] at hi
    exact (importsOf_reorders h m'.id).mem_iff.mp hi
  obtain ⟨m, hm, -, hi'⟩ := mem_importsOf.mp himp
  exact hbare m hm i hi'

theorem schedule_bare (hbare : prog.Bare) (hroots : prog.Linked roots) {event : Import}
    (h : event ∈ prog.schedule roots) : ∃ id, event = Sum.inl id := by
  cases event with
  | inl id => exact ⟨id, rfl⟩
  | inr d =>
    obtain ⟨m, hm, -, hd⟩ := (mem_schedule_inr hroots d).mp h
    exact hbare m hm _ hd

/-- The keys present after some events of a run without panic. -/
theorem contains_runEvents {events : List Import} {d : Container}
    (h : prog.runEvents events c = .ok d) (k : TypeId) :
    d.contains k = true ↔
      c.contains k = true ∨ ∃ event ∈ events, ∃ x ∈ prog.bindingsOf event, k ∈ x.adds := by
  obtain ⟨done, hp, -, rfl⟩ := runEvents_ok h
  rw [Container.contains_afterAll]
  simp only [hp.mem_iff, List.mem_flatMap]
  constructor
  · rintro (h | ⟨b, ⟨event, he, hb⟩, hk⟩)
    · exact Or.inl h
    · exact Or.inr ⟨event, he, b, hb, hk⟩
  · rintro (h | ⟨event, he, b, hb, hk⟩)
    · exact Or.inl h
    · exact Or.inr ⟨b, ⟨event, he, hb⟩, hk⟩

/-- What a module finds at its turn is what the modules before it list. -/
theorem contains_turn {pre : List Import} {d : Container} (h : prog.runEvents pre c = .ok d)
    (k : TypeId) : d.contains k = true ↔ (prog.before pre c).contains k = true := by
  rw [contains_runEvents h, Program.before, Container.contains_afterAll]
  refine or_congr_right ?_
  simp only [List.mem_flatMap]
  constructor
  · rintro ⟨event, he, b, hb, hk⟩
    exact ⟨b, ⟨event, he, hb⟩, hk⟩
  · rintro ⟨b, ⟨event, he, hb⟩, hk⟩
    exact ⟨event, he, b, hb, hk⟩

/-- For bare imports: the keys present at a module's turn. -/
theorem contains_before (hbare : prog.Bare) (hroots : prog.Linked roots) {pre post : List Import}
    {d : Container} (hsplit : prog.schedule roots = pre ++ post)
    (h : prog.runEvents pre c = .ok d) (k : TypeId) :
    d.contains k = true ↔ c.contains k = true ∨
      ∃ n, Sum.inl n ∈ pre ∧ ∃ x ∈ prog.providersOf n, k ∈ x.adds := by
  rw [contains_runEvents h]
  refine or_congr_right ⟨?_, ?_⟩
  · rintro ⟨event, he, x, hx, hk⟩
    obtain ⟨n, rfl⟩ := schedule_bare hbare hroots (show event ∈ prog.schedule roots by
      rw [hsplit]
      exact List.mem_append_left _ he)
    exact ⟨n, he, x, hx, hk⟩
  · rintro ⟨n, hn, x, hx, hk⟩
    exact ⟨Sum.inl n, hn, x, hx, hk⟩

/-- The phase returns iff its events run, and then it has built everything. -/
theorem buildsAll_iff (hroots : prog.Linked roots) :
    BuildsAll prog roots c ↔ ∃ d, prog.runEvents (prog.schedule roots) c = .ok d := by
  obtain ⟨marked, hreg⟩ := registerModules_eq hroots ⟨c, [], [], []⟩ rfl
  unfold BuildsAll
  rw [hreg]
  constructor
  · rintro ⟨builder, hb, -⟩
    obtain ⟨d, hd, -⟩ := map_eq_ok.mp hb
    exact ⟨d, hd⟩
  · rintro ⟨d, hd⟩
    refine ⟨_, by rw [hd]; rfl, ?_⟩
    rintro b ⟨id, hr, hb⟩
    obtain ⟨done, hp, -, rfl⟩ := runEvents_ok hd
    simp only [Container.log_afterAll, List.map_append, Container.binding_entries]
    refine List.mem_append_right _ (hp.mem_iff.mpr (List.mem_flatMap.mpr ⟨Sum.inl id, ?_, hb⟩))
    exact (mem_schedule hroots id).mpr hr

/-- A run of the schedule passes through the turn of each module. -/
theorem turn_of_runEvents {pre post : List Import} {id : TypeId} {e : Container}
    (h : prog.runEvents (pre ++ Sum.inl id :: post) c = .ok e) :
    ∃ d d', prog.runEvents pre c = .ok d ∧
      registerProviders (prog.nameOf id) (prog.providersOf id) d = .ok d' ∧
      prog.runEvents post d' = .ok e := by
  rw [runEvents_append, bind_eq_ok] at h
  obtain ⟨d, hd, h⟩ := h
  rw [runEvents_cons, bind_eq_ok] at h
  obtain ⟨d', hd', h⟩ := h
  exact ⟨d, d', hd, hd', h⟩

/-- The schedule runs through if every module registers at its turn. -/
theorem runEvents_of_turns (hbare : prog.Bare) (hroots : prog.Linked roots)
    (hturn : ∀ pre id post d, prog.schedule roots = pre ++ Sum.inl id :: post →
      prog.runEvents pre c = .ok d →
      ∃ d', registerProviders (prog.nameOf id) (prog.providersOf id) d = .ok d') :
    ∃ d, prog.runEvents (prog.schedule roots) c = .ok d := by
  have hrun : ∀ pre post, prog.schedule roots = pre ++ post →
      ∃ d, prog.runEvents pre c = .ok d := by
    intro pre
    induction pre using List.reverseRecOn with
    | nil =>
      intro post _
      exact ⟨c, rfl⟩
    | append_singleton pre event ih =>
      intro post hsplit
      rw [List.append_assoc, List.singleton_append] at hsplit
      obtain ⟨d, hd⟩ := ih (event :: post) hsplit
      have hevent : event ∈ prog.schedule roots := by
        rw [hsplit]
        simp
      obtain ⟨id, rfl⟩ := schedule_bare hbare hroots hevent
      obtain ⟨d', hd'⟩ := hturn pre id post d hsplit hd
      refine ⟨d', ?_⟩
      rw [runEvents_append, hd]
      exact (runEvents_cons _ _ _).trans (by rw [Program.runEvent, hd']; rfl)
  exact hrun _ [] (by simp)

/-- The schedule runs when every module is served. -/
theorem runEvents_of_served (hbare : prog.Bare) (hroots : prog.Linked roots)
    (hac : prog.AcyclicDependencies roots) (hs : Served prog roots c) :
    ∃ d, prog.runEvents (prog.schedule roots) c = .ok d := by
  refine runEvents_of_turns hbare hroots fun pre id post d hsplit hd => ?_
  have hmem : ReachableFrom prog.descriptors roots id := by
    rw [← mem_schedule hroots, hsplit]
    simp
  refine registers_of_served (servedBy_congr (fun k => (contains_turn hd k).mpr)
    (hs pre id post hsplit)) fun b hb => ?_
  refine hac b (Relation.TransGen.mono (fun x y hxy => ?_) b b hb)
  obtain ⟨hx, hy, f, hf, hk, -⟩ := hxy
  exact ⟨⟨id, hmem, hx⟩, ⟨id, hmem, hy⟩, f, hf, hk⟩

/-- A split of the schedule at a module does not meet it before. -/
theorem not_mem_before (hroots : prog.Linked roots) {pre post : List Import} {id : TypeId}
    (hsplit : prog.schedule roots = pre ++ Sum.inl id :: post) : Sum.inl id ∉ pre := by
  intro hmem
  have hnodup := schedule_nodup hroots
  rw [hsplit] at hnodup
  have hvertices : vertices (pre ++ Sum.inl id :: post) =
      vertices pre ++ id :: vertices post := by
    simp [vertices]
  rw [hvertices] at hnodup
  exact (List.nodup_append.mp hnodup).2.2 id (mem_vertices.mpr hmem) id List.mem_cons_self rfl

/-- **When the register phase meets the access contract.** For programs composed of bare-type
imports (cycles included) whose dependencies are acyclic, over any global keys: the phase builds
every provider of every reachable module iff every module is served at its turn in the walk over
the imports. -/
theorem register_phase_iff_served (prog : Program) (roots : List TypeId) (c : Container)
    (hbare : prog.Bare) (hroots : prog.Linked roots) (hac : prog.AcyclicDependencies roots) :
    BuildsAll prog roots c ↔ Served prog roots c := by
  rw [buildsAll_iff hroots]
  constructor
  · rintro ⟨e, he⟩ pre id post hsplit
    rw [hsplit] at he
    obtain ⟨d, d', hd, hd', -⟩ := turn_of_runEvents he
    exact servedBy_congr (fun k => (contains_turn hd k).mp) (served_of_registers hd')
  · exact runEvents_of_served hbare hroots hac

/-- The access contract asks this of the eagerly built providers: each required dependency is
global, or an eagerly built provider of a module in the import closure is listed under it. -/
def RequiredImported (prog : Program) (roots : List TypeId) (c : Container) : Prop :=
  ∀ id, ReachableFrom prog.descriptors roots id → ∀ b ∈ prog.providersOf id,
    b.provider.eager = true → ∀ k ∈ b.provider.dependencies, c.contains k = true ∨
      ∃ n, InClosure prog.descriptors id n ∧
        ∃ x ∈ prog.providersOf n, x.provider.eager = true ∧ x.providedKey = k

/-- `OrdersModule` and `BillingModule` import each other, and `Billing` needs `Orders`. -/
def ordersModule : ModuleDecl :=
  ⟨1, "OrdersModule", [Sum.inl 2], [.concrete ⟨10, "Orders", [], .injectable⟩]⟩

def billingModule : ModuleDecl :=
  ⟨2, "BillingModule", [Sum.inl 1],
    [.concrete ⟨20, "Billing", [⟨"orders", 10, "Orders", false⟩], .injectable⟩]⟩

def cyclicProgram : Program where
  modules := [ordersModule, billingModule]
  resolvers := []
  distinct := by decide
  linked m hm id hid := by
    simp only [List.mem_cons, List.not_mem_nil, or_false] at hm
    rcases hm with rfl | rfl
    · simp only [ordersModule, List.mem_singleton, Sum.inl.injEq] at hid
      rw [hid]
      decide
    · simp only [billingModule, List.mem_singleton, Sum.inl.injEq] at hid
      rw [hid]
      decide

theorem cyclicProgram_bare : cyclicProgram.Bare := by
  intro m hm i hi
  simp only [cyclicProgram, List.mem_cons, List.not_mem_nil, or_false] at hm
  rcases hm with rfl | rfl
  · exact ⟨2, by simpa [ordersModule] using hi⟩
  · exact ⟨1, by simpa [billingModule] using hi⟩

theorem cyclicProgram_providers {id : TypeId} {b : ProviderBinding}
    (h : b ∈ cyclicProgram.providersOf id) :
    (id = 1 ∧ b = .concrete ⟨10, "Orders", [], .injectable⟩) ∨
      (id = 2 ∧
        b = .concrete ⟨20, "Billing", [⟨"orders", 10, "Orders", false⟩], .injectable⟩) := by
  obtain ⟨m, hm, rfl, hb⟩ := mem_providersOf.mp h
  simp only [cyclicProgram, List.mem_cons, List.not_mem_nil, or_false] at hm
  rcases hm with rfl | rfl
  · exact Or.inl ⟨rfl, by simpa [ordersModule] using hb⟩
  · exact Or.inr ⟨rfl, by simpa [billingModule] using hb⟩

theorem cyclicProgram_acyclic (roots : List TypeId) :
    cyclicProgram.AcyclicDependencies roots := by
  -- the only dependency goes from key 20 to key 10
  have hedge : ∀ b x : ProviderBinding, cyclicProgram.Provides roots b ∧
      cyclicProgram.Provides roots x ∧ DependsOn b x → x.providedKey < b.providedKey := by
    rintro b x ⟨⟨id, -, hb⟩, -, f, hf, hk⟩
    rcases cyclicProgram_providers hb with ⟨-, rfl⟩ | ⟨-, rfl⟩
    · exact absurd hf List.not_mem_nil
    · rw [List.mem_singleton.mp hf] at hk
      rw [← hk]
      decide
  exact not_transGen_of_rank ProviderBinding.providedKey hedge

/-- Entered at `BillingModule`, the cycle registers: `OrdersModule` is finished first. -/
theorem cyclicProgram_registers : BuildsAll cyclicProgram [2] Container.empty := by
  have hlinked : cyclicProgram.Linked [2] := by
    intro r hr
    rw [List.mem_singleton.mp hr]
    decide
  refine (register_phase_iff_served cyclicProgram [2] Container.empty cyclicProgram_bare hlinked
    (cyclicProgram_acyclic [2])).mpr fun pre id post hsplit => ⟨fun b hb _ f hf _ => ?_, ?_⟩
  · have hsched : cyclicProgram.schedule [2] = [Sum.inl 1, Sum.inl 2] := rfl
    rw [hsched] at hsplit
    rcases cyclicProgram_providers hb with ⟨rfl, rfl⟩ | ⟨rfl, rfl⟩
    · exact absurd hf List.not_mem_nil
    · rw [Program.before, Container.contains_afterAll, List.mem_singleton.mp hf]
      refine Or.inl (Or.inr ⟨.concrete ⟨10, "Orders", [], .injectable⟩, ?_, by decide⟩)
      cases pre with
      | nil => simp at hsplit
      | cons i pre =>
        rw [List.cons_append, List.cons.injEq] at hsplit
        rw [List.flatMap_cons, ← hsplit.1]
        exact List.mem_append_left _ (List.mem_singleton.mpr rfl)
  · intro before b behind hlist hg
    have hb : b ∈ cyclicProgram.providersOf id := hlist ▸ by simp
    rcases cyclicProgram_providers hb with ⟨-, rfl⟩ | ⟨-, rfl⟩ <;> exact absurd hg (by decide)

/-- Entered at `OrdersModule`, it panics: `BillingModule`'s fixpoint runs first, although the
access contract is met and the dependencies are acyclic. -/
theorem cyclicProgram_panics :
    cyclicProgram.Bare ∧ RequiredImported cyclicProgram [1] Container.empty ∧
      cyclicProgram.AcyclicDependencies [1] ∧
      ¬ BuildsAll cyclicProgram [1] Container.empty := by
  refine ⟨cyclicProgram_bare, ?_, cyclicProgram_acyclic [1], ?_⟩
  · intro id _ b hb _ k hk
    rcases cyclicProgram_providers hb with ⟨rfl, rfl⟩ | ⟨rfl, rfl⟩
    · exact absurd hk List.not_mem_nil
    · rw [show k = 10 from List.mem_singleton.mp hk]
      refine Or.inr ⟨1, .single ⟨billingModule.descriptor, by decide, rfl, by decide⟩,
        .concrete ⟨10, "Orders", [], .injectable⟩, List.mem_singleton.mpr rfl, rfl, rfl⟩
  · rintro ⟨builder, hb, -⟩
    have hok := isOk_iff.mpr ⟨builder, hb⟩
    exact absurd hok (by decide)

end Phase

end Nestrs.Core
