import Nestrs.Core.ImportOrder

/-!
# Import order and optional dependencies

An `#[inject] Option<Arc<T>>` field is not part of `injected`, so the access check never sees it,
and the fixpoint waits only for suppliers in the same list. Whether such a field finds its provider
then depends on whether the provider's module is finished first.

The order of imports changes nothing else. At a module's turn the required keys and the module's
own keys are the same in all orders, so its fixpoint registers its list in the same order
(`registerProviders_congr`), and a field finds a key of another module iff that module comes
earlier. It always does when it is imported, and never when it imports the field's module; between
unrelated modules both happen.

Results:
* `registerProviders_congr`: builders that agree on what a list waits for register it alike;
* **`optional_import_order`**: optional injection does not depend on the order of imports iff each
  supplier of an optional key is global or in a module related to the field's by imports.
-/

namespace Nestrs.Core

open Nestrs.Lib

/-! ## Two runs of one list -/

/-- The builders agree on the keys the list waits for: the required ones, and the optional ones
the list provides. -/
def AgreeOn (ps : List ProviderBinding) (c c' : Container) : Prop :=
  ∀ b ∈ ps, ∀ f ∈ b.reads,
    (f.optional = false ∨ f.key ∈ ps.map ProviderBinding.providedKey) →
      (c.contains f.key = true ↔ c'.contains f.key = true)

section Congr

variable {ps : List ProviderBinding} {c c' : Container} {module : String}

theorem AgreeOn.after (h : AgreeOn ps c c') (b : ProviderBinding) :
    AgreeOn ps (c.after b) (c'.after b) := by
  intro x hx f hf hk
  rw [Container.contains_after, Container.contains_after, h x hx f hf hk]

theorem AgreeOn.afterAll (h : AgreeOn ps c c') (bs : List ProviderBinding) :
    AgreeOn ps (c.afterAll bs) (c'.afterAll bs) := by
  intro x hx f hf hk
  rw [Container.contains_afterAll, Container.contains_afterAll, h x hx f hf hk]

theorem AgreeOn.ready_iff (h : AgreeOn ps c c') {b : ProviderBinding} (hb : b ∈ ps)
    {keys : List TypeId} (hkeys : ∀ k ∈ keys, k ∈ ps.map ProviderBinding.providedKey) :
    ready c keys b = true ↔ ready c' keys b = true := by
  rw [Core.ready_iff, Core.ready_iff]
  refine and_congr (forall₂_congr fun r hr => ?_) (forall₂_congr fun o ho => ?_)
  · obtain ⟨f, hf, hopt, rfl⟩ := ProviderBinding.reads_of_dependencies.1 hr
    exact h b hb f hf (Or.inl hopt)
  · obtain ⟨f, hf, -, rfl⟩ := ProviderBinding.reads_of_dependencies.2 ho
    by_cases hk : f.key ∈ keys
    · rw [h b hb f hf (Or.inr (hkeys _ hk))]
    · exact ⟨fun _ => Or.inr hk, fun _ => Or.inr hk⟩

theorem AgreeOn.resolves_iff (h : AgreeOn ps c c') {b : ProviderBinding} (hb : b ∈ ps) :
    c.Resolves b ↔ c'.Resolves b :=
  forall₂_congr fun f hf => forall_congr' fun ho => h b hb f hf (Or.inl ho)

/-- A round that succeeds registers the same bindings from the other builder. -/
theorem round_congr (h : AgreeOn ps c c') {keys : List TypeId}
    (hkeys : ∀ k ∈ keys, k ∈ ps.map ProviderBinding.providedKey) {bs left : List ProviderBinding}
    (hbs : ∀ b ∈ bs, b ∈ ps) {d : Container} (hr : round keys bs c = .ok (d, left)) :
    ∃ done, d = c.afterAll done ∧ round keys bs c' = .ok (c'.afterAll done, left) := by
  induction bs generalizing c c' left with
  | nil =>
    cases hr
    exact ⟨[], rfl, rfl⟩
  | cons b bs ih =>
    obtain ⟨hb, hbs⟩ := List.forall_mem_cons.mp hbs
    rw [round] at hr ⊢
    by_cases hready : ready c keys b = true
    · rw [if_pos hready, bind_eq_ok] at hr
      obtain ⟨c₁, hreg, hr⟩ := hr
      have hres : c.Resolves b := by
        by_contra hno
        obtain ⟨message, hm⟩ := (register_eq b c).2 hno
        rw [hm] at hreg
        cases hreg
      rw [(register_eq b c).1 hres] at hreg
      cases hreg
      obtain ⟨done, hd, hr'⟩ := ih (h.after b) hbs hr
      refine ⟨b :: done, hd, ?_⟩
      rw [if_pos ((h.ready_iff hb hkeys).mp hready),
        (register_eq b c').1 ((h.resolves_iff hb).mp hres)]
      exact hr'
    · rw [if_neg hready, bind_eq_ok] at hr
      obtain ⟨⟨c₁, left'⟩, hr, heq⟩ := hr
      cases heq
      obtain ⟨done, hd, hr'⟩ := ih h hbs hr
      refine ⟨done, hd, ?_⟩
      rw [if_neg fun hready' => hready ((h.ready_iff hb hkeys).mpr hready'), hr']
      rfl

/-- The providers a round leaves were pending. -/
theorem mem_of_left {pending left : List ProviderBinding} {d : Container}
    (hr : round (pending.map ProviderBinding.providedKey) pending c = .ok (d, left)) :
    ∀ b ∈ left, b ∈ pending := by
  rcases round_spec (pending.map ProviderBinding.providedKey) pending c []
      (fun b hb => List.mem_map.mpr ⟨b, by simpa using hb, rfl⟩) with
    ⟨done, left', hperm, -, hr', -⟩ | ⟨done, b, left', message, -, -, -, -, hr'⟩
  · rw [hr] at hr'
    cases hr'
    exact fun b hb => hperm.mem_iff.mp (List.mem_append_right _ hb)
  · rw [hr] at hr'
    exact nomatch hr'

theorem fixpointLoop_congr {module' : String} (h : AgreeOn ps c c') {rounds : Nat}
    {pending : List ProviderBinding} (hpending : ∀ b ∈ pending, b ∈ ps) {d : Container}
    (hr : fixpointLoop module rounds pending c = .ok d) :
    ∃ done, d = c.afterAll done ∧
      fixpointLoop module' rounds pending c' = .ok (c'.afterAll done) := by
  induction rounds generalizing pending c c' with
  | zero => exact nomatch hr
  | succ rounds ih =>
    rw [fixpointLoop, bind_eq_ok] at hr
    obtain ⟨⟨c₁, left⟩, hround, hr⟩ := hr
    obtain ⟨done, rfl, hround'⟩ := round_congr h (fun k hk => by
      obtain ⟨b, hb, rfl⟩ := List.mem_map.mp hk
      exact List.mem_map.mpr ⟨b, hpending b hb, rfl⟩) hpending hround
    rw [fixpointLoop, hround']
    simp only [bind, Except.bind] at hr ⊢
    split at hr
    · rename_i hleft
      cases hr
      exact ⟨done, rfl, by rw [if_pos hleft]⟩
    · rename_i hleft
      split at hr
      · cases hr
      · rename_i hlen
        obtain ⟨done', rfl, hloop⟩ := ih (h.afterAll done)
          (fun b hb => hpending b (mem_of_left hround b hb)) hr
        refine ⟨done ++ done', (Container.afterAll_append _ _ _).symm, ?_⟩
        rw [if_neg hleft, if_neg hlen, hloop, Container.afterAll_append]

/-- The log tells in which order bindings were registered. -/
theorem Container.afterAll_injective {bs bs' : List ProviderBinding}
    (h : c.afterAll bs = c.afterAll bs') : bs = bs' := by
  have hlog := congrArg Container.log h
  rw [log_afterAll, log_afterAll, List.append_cancel_left_eq] at hlog
  rw [← c.binding_entries bs, hlog, c.binding_entries]

/-- **Builders that agree on what the list waits for** register it in the same order. -/
theorem registerProviders_congr {module' : String} (h : AgreeOn ps c c')
    {done : List ProviderBinding} (hr : registerProviders module ps c = .ok (c.afterAll done)) :
    registerProviders module' ps c' = .ok (c'.afterAll done) := by
  obtain ⟨done', hd, hr'⟩ : ∃ done', c.afterAll done = c.afterAll done' ∧
      registerProviders module' ps c' = .ok (c'.afterAll done') :=
    fixpointLoop_congr h (fun b hb => hb) hr
  rw [Container.afterAll_injective hd]
  exact hr'

end Congr

/-! ## Reordering the imports -/

/-- The same application, up to the order of imports and roots. -/
structure AppBuilder.ReordersImports {prog prog' : Program} (app : AppBuilder prog)
    (app' : AppBuilder prog') : Prop extends app.Reorders app' where
  providers : ∀ id, prog'.providersOf id = prog.providersOf id

/-- Whether each optional field of a binding found a provider. -/
def Built.optionals (e : Built) : List (InjectField × Bool) :=
  (e.fields.filter fun field => field.1.optional).map fun field => (field.1, field.2.isSome)

/-- **Optional injection does not depend on import order**: an eagerly built provider has the same
optional fields set in every order of imports and roots that boots. -/
def OptionalStable {prog : Program} (app : AppBuilder prog) : Prop :=
  ∀ (prog' : Program) (app' : AppBuilder prog') (order order' : HashOrder) (c c' : Container),
    app.ReordersImports app' → app.build order = .ok c → app'.build order' = .ok c' →
      ∀ e ∈ c.log, ∀ e' ∈ c'.log, e'.binding = e.binding → e.binding.provider.eager = true →
        e'.optionals = e.optionals

/-- A key read by a provider of `id` is global, or every reachable module that registers it imports
`id` or is imported by it. -/
def SuppliersRelated {prog : Program} (app : AppBuilder prog) (id k : TypeId) : Prop :=
  app.Global k ∨ ∀ n, ReachableFrom prog.descriptors app.modules n →
    ∀ x ∈ prog.providersOf n, k ∈ x.adds →
      InClosure prog.descriptors id n ∨ InClosure prog.descriptors n id

section Boot

variable {prog prog' : Program} {app : AppBuilder prog} {app' : AppBuilder prog'}
  {order order' : HashOrder}

theorem AppBuilder.ReordersImports.symm (h : app.ReordersImports app') :
    app'.ReordersImports app :=
  ⟨h.toReorders.symm, fun id => (h.providers id).symm⟩

theorem bindings_nodup (h : Modular app) :
    ((prog.schedule app.modules).flatMap prog.bindingsOf).Nodup := by
  have hnodup : (prog.schedule app.modules).Nodup := by
    rw [schedule_eq_map h.bare app.linked]
    exact (schedule_nodup app.linked).map Sum.inl_injective
  refine List.nodup_flatMap.mpr ⟨fun event he => ?_,
    hnodup.pairwise_of_forall_ne fun event he event' he' hne => ?_⟩
  · obtain ⟨id, rfl⟩ := schedule_bare h.bare app.linked he
    exact h.distinct.nodup id ((mem_schedule app.linked id).mp he)
  · obtain ⟨id, rfl⟩ := schedule_bare h.bare app.linked he
    obtain ⟨n, rfl⟩ := schedule_bare h.bare app.linked he'
    intro b hb hb'
    refine hne (congrArg Sum.inl ?_)
    exact (h.distinct.owner id n ((mem_schedule app.linked id).mp he)
      ((mem_schedule app.linked n).mp he') b hb b hb' _ List.mem_cons_self List.mem_cons_self).1

/-- A binding's turn in a boot: the container its module starts from, the bindings of the module
registered before it, and so its entry in the log. -/
structure TurnOf (app : AppBuilder prog) (c₀ c : Container) (id : TypeId) (b : ProviderBinding)
    (pre post : List Import) (d : Container) (bpre bpost : List ProviderBinding) : Prop where
  split : prog.schedule app.modules = pre ++ Sum.inl id :: post
  before : prog.runEvents pre c₀ = .ok d
  registers : registerProviders (prog.nameOf id) (prog.providersOf id) d =
    .ok (d.afterAll (bpre ++ b :: bpost))
  perm : (bpre ++ b :: bpost).Perm (prog.providersOf id)
  resolves : (d.afterAll bpre).Resolves b
  entry : ∀ e, (e ∈ c.log ∧ e.binding = b) ↔
    e = ⟨b, b.reads.map fun f => (f, (d.afterAll bpre).get f.key)⟩

/-- Every provider has its turn. -/
theorem exists_turnOf (h : Modular app) {c c₀ : Container} (hc : app.build order = .ok c)
    (hf : runFactories app.queued app.container = .ok c₀) {pre post : List Import} {id : TypeId}
    (hsplit : prog.schedule app.modules = pre ++ Sum.inl id :: post) {b : ProviderBinding}
    (hb : b ∈ prog.providersOf id) :
    ∃ d bpre bpost, TurnOf app c₀ c id b pre post d bpre bpost := by
  obtain ⟨c₀', c₁, hf', hrun, -, -, rfl⟩ := (build_eq_ok app).mp hc
  rw [hf] at hf'
  cases hf'
  rw [hsplit] at hrun
  obtain ⟨d, d', hpre, hregister, hpost⟩ := turn_of_runEvents hrun
  obtain ⟨done, hp, hreg, rfl⟩ := registerProviders_ok hregister
  obtain ⟨bpre, bpost, rfl⟩ := List.append_of_mem (hp.mem_iff.mpr hb)
  refine ⟨d, bpre, bpost, hsplit, hpre, hregister, hp, hreg.split.2, fun e => ?_⟩
  -- the log of the whole phase, around this module's part
  obtain ⟨first, hfirst, -, rfl⟩ := runEvents_ok hpre
  obtain ⟨last, hlast, -, rfl⟩ := runEvents_ok hpost
  have hall : (first ++ bpre ++ b :: (bpost ++ last)).Nodup := by
    refine (List.Perm.nodup_iff ?_).mpr (bindings_nodup h)
    rw [hsplit, List.flatMap_append, List.flatMap_cons]
    simpa [Program.bindingsOf] using hfirst.append (hp.append hlast)
  have hlog : (((c₀.afterAll first).afterAll (bpre ++ b :: bpost)).afterAll last).log =
      c₀.entries (first ++ bpre ++ b :: (bpost ++ last)) := by
    rw [← Container.afterAll_append, ← Container.afterAll_append, Container.log_afterAll,
      log_start hf]
    simp
  rw [log_provideAll, hlog, ← Container.afterAll_append]
  constructor
  · rintro ⟨he, hbinding⟩
    obtain ⟨xs, x, ys, hxs, rfl⟩ := Container.mem_entries he
    simp only at hbinding
    subst hbinding
    rw [List.nodup_middle, List.nodup_cons, List.mem_append, not_or] at hall
    rw [((List.append_cons_inj_of_notMem hall.1.1 hall.1.2).mp hxs).1]
  · rintro rfl
    refine ⟨?_, rfl⟩
    rw [Container.entries_append]
    exact List.mem_append_right _ List.mem_cons_self

/-! ## The same module in two orders -/

section Turns

variable {c₀ d d' : Container} {pre post pre' post' : List Import} {id : TypeId}

/-- The keys of the module itself are there only if they are global. -/
theorem own_turn_iff (h : Modular app) (hre : app.ReordersImports app')
    (hsplit : prog.schedule app.modules = pre ++ Sum.inl id :: post)
    (hsplit' : prog'.schedule app'.modules = pre' ++ Sum.inl id :: post')
    (hrun : prog.runEvents pre c₀ = .ok d) (hrun' : prog'.runEvents pre' c₀ = .ok d')
    {x : ProviderBinding} (hx : x ∈ prog.providersOf id) {k : TypeId} (hk : k ∈ x.keys) :
    d.contains k = true ↔ d'.contains k = true := by
  have h' := h.reorders hre.toReorders
  rw [contains_own_iff h.distinct h.bare app.linked hsplit hrun hx hk,
    contains_own_iff h'.distinct h'.bare app'.linked hsplit' hrun' (hre.providers id ▸ hx) hk]

/-- In two boots, a required key that one finds at a module's turn is there in the other. -/
theorem required_turn (h : Modular app) (hre : app.ReordersImports app')
    (hsplit : prog.schedule app.modules = pre ++ Sum.inl id :: post)
    (hsplit' : prog'.schedule app'.modules = pre' ++ Sum.inl id :: post')
    (hrun : prog.runEvents pre c₀ = .ok d) (hrun' : prog'.runEvents pre' c₀ = .ok d')
    {module : String} {e : Container}
    (hok : registerProviders module (prog.providersOf id) d' = .ok e) {b : ProviderBinding}
    (hb : b ∈ prog.providersOf id) {f : InjectField} (hf : f ∈ b.reads)
    (ho : f.optional = false) (hc : d.contains f.key = true) : d'.contains f.key = true := by
  obtain ⟨done, hp, hreg, -⟩ := registerProviders_ok hok
  obtain ⟨bpre, bpost, rfl⟩ := List.append_of_mem (hp.mem_iff.mpr hb)
  rcases (Container.contains_afterAll d' bpre f.key).mp (hreg.split.2 f hf ho) with
    hd | ⟨x, hx, hk⟩
  · exact hd
  · exact (own_turn_iff h hre hsplit hsplit' hrun hrun'
      (hp.mem_iff.mp (List.mem_append_left _ hx)) (List.mem_cons_of_mem _ hk)).mp hc

/-- Two boots agree, at a module's turn, on what its list waits for. -/
theorem agreeOn_of_boots (h : Modular app) (hre : app.ReordersImports app')
    (hsplit : prog.schedule app.modules = pre ++ Sum.inl id :: post)
    (hsplit' : prog'.schedule app'.modules = pre' ++ Sum.inl id :: post')
    (hrun : prog.runEvents pre c₀ = .ok d) (hrun' : prog'.runEvents pre' c₀ = .ok d')
    {module module' : String} {e e' : Container}
    (hok : registerProviders module (prog.providersOf id) d = .ok e)
    (hok' : registerProviders module' (prog.providersOf id) d' = .ok e') :
    AgreeOn (prog.providersOf id) d d' := by
  intro b hb f hf hk
  rcases hk with ho | hk
  · refine ⟨required_turn h hre hsplit hsplit' hrun hrun' hok' hb hf ho, ?_⟩
    rw [← hre.providers id] at hok hb
    exact required_turn (h.reorders hre.toReorders) hre.symm hsplit' hsplit hrun' hrun hok hb hf ho
  · obtain ⟨x, hx, hxk⟩ := List.mem_map.mp hk
    exact own_turn_iff h hre hsplit hsplit' hrun hrun' hx (hxk ▸ List.mem_cons_self)

/-- So they do when only one of them is known to boot, if providers register no further keys. -/
theorem agreeOn_of_access (h : Modular app) (hown : RegistersOwn prog app.modules)
    (hre : app.ReordersImports app')
    (hv : validateAccessGraph prog.descriptors order app.modules c₀.contains = .ok ())
    (hsplit : prog.schedule app.modules = pre ++ Sum.inl id :: post)
    (hsplit' : prog'.schedule app'.modules = pre' ++ Sum.inl id :: post')
    (hrun : prog.runEvents pre c₀ = .ok d) (hrun' : prog'.runEvents pre' c₀ = .ok d') :
    AgreeOn (prog.providersOf id) d d' := by
  intro b hb f hf hk
  by_cases hself : ∃ x ∈ prog.providersOf id, f.key ∈ x.keys
  · obtain ⟨x, hx, hxk⟩ := hself
    exact own_turn_iff h hre hsplit hsplit' hrun hrun' hx hxk
  · have hno : ∀ x ∈ prog.providersOf id, f.key ∉ x.keys := fun x hx hxk => hself ⟨x, hx, hxk⟩
    rcases hk with ho | hk
    · exact h.contains_turn hown hre.toReorders hv hsplit hsplit' hrun hrun' hb hf ho hno
    · obtain ⟨x, hx, hxk⟩ := List.mem_map.mp hk
      exact absurd (hxk ▸ List.mem_cons_self) (hno x hx)

/-- The keys of a module related by imports are there in both orders or in neither. -/
theorem related_turn (h : Modular app) (hre : app.ReordersImports app')
    (hf : runFactories app.queued app.container = .ok c₀)
    (hsplit : prog.schedule app.modules = pre ++ Sum.inl id :: post)
    (hsplit' : prog'.schedule app'.modules = pre' ++ Sum.inl id :: post')
    (hrun : prog.runEvents pre c₀ = .ok d) (hrun' : prog'.runEvents pre' c₀ = .ok d')
    {k : TypeId} (hk : SuppliersRelated app id k) (hc : d.contains k = true) :
    d'.contains k = true := by
  have h' := h.reorders hre.toReorders
  rw [contains_before h'.bare app'.linked hsplit' hrun']
  rcases (contains_before h.bare app.linked hsplit hrun k).mp hc with hc | ⟨n, hn, x, hx, hxk⟩
  · exact Or.inl hc
  rcases hk with hk | hk
  · exact Or.inl ((global_iff h hf k).mpr hk)
  obtain ⟨hne, hr⟩ := (reachable_of_before app.linked hsplit).2 n hn
  rcases hk n hr x hx hxk with hclosure | hclosure
  · rw [← inClosure_reorders hre.program] at hclosure
    exact Or.inr ⟨n, before_of_inClosure h'.acyclic app'.linked hsplit' hclosure hne, x,
      hre.providers n ▸ hx, hxk⟩
  · -- a module that imports `id` comes after it
    exfalso
    obtain ⟨p, q, rfl⟩ := List.append_of_mem hn
    refine not_mem_before app.linked hsplit (List.mem_append_left _ ?_)
    rw [List.append_assoc, List.cons_append] at hsplit
    exact before_of_inClosure h.acyclic app.linked hsplit hclosure hne.symm

theorem SuppliersRelated.reorders {k : TypeId} (hk : SuppliersRelated app id k)
    (hre : app.ReordersImports app') : SuppliersRelated app' id k := by
  unfold SuppliersRelated AppBuilder.Global at hk ⊢
  simp only [hre.seeds, hre.factories, hre.providers, inClosure_reorders hre.program,
    reachable_reorders hre.program hre.modules]
  exact hk

/-- In two boots a binding has the same turn in its module. -/
theorem same_turn (h : Modular app) (hre : app.ReordersImports app') {c c' : Container}
    {b : ProviderBinding} {bpre bpost bpre' bpost' : List ProviderBinding}
    (ht : TurnOf app c₀ c id b pre post d bpre bpost)
    (ht' : TurnOf app' c₀ c' id b pre' post' d' bpre' bpost') : bpre' = bpre := by
  have hagree := agreeOn_of_boots h hre ht.split ht'.split ht.before ht'.before ht.registers
    (hre.providers id ▸ ht'.registers)
  have hsame : registerProviders (prog'.nameOf id) (prog.providersOf id) d' =
      .ok (d'.afterAll (bpre ++ b :: bpost)) := registerProviders_congr hagree ht.registers
  rw [← hre.providers id, ht'.registers, Except.ok.injEq] at hsame
  have hnodup : (bpre' ++ b :: bpost').Nodup := by
    rw [ht'.perm.nodup_iff]
    exact (h.reorders hre.toReorders).distinct.nodup id
      (reachable_of_before app'.linked ht'.split).1
  rw [List.nodup_middle, List.nodup_cons, List.mem_append, not_or] at hnodup
  exact ((List.append_cons_inj_of_notMem hnodup.1.1 hnodup.1.2).mp
    (Container.afterAll_injective hsame)).1

end Turns

theorem optionals_entry (b : ProviderBinding) (d : Container) :
    Built.optionals ⟨b, b.reads.map fun f => (f, d.get f.key)⟩ =
      (b.reads.filter fun f => f.optional).map fun f => (f, d.contains f.key) := by
  simp [Built.optionals, List.filter_map, Function.comp_def, Container.get, Container.contains]

/-- Where the suppliers of the optional keys are related by imports, the order does not matter. -/
theorem optionalStable_of_related (h : Modular app)
    (hrel : ∀ id, ReachableFrom prog.descriptors app.modules id → ∀ b ∈ prog.providersOf id,
      b.provider.eager = true → ∀ f ∈ b.reads, f.optional = true →
        SuppliersRelated app id f.key) : OptionalStable app := by
  intro prog' app' order order' c c' hre hc hc' e he e' he' hbinding heager
  have h' := h.reorders hre.toReorders
  obtain ⟨c₀, c₁, hf, hrun, -, -, hfinal⟩ := (build_eq_ok app).mp hc
  have hf' := (start_reorders h.bare hre.toReorders).trans hf
  -- the entry belongs to a provider of some reachable module
  obtain ⟨id, hr, hb⟩ : ∃ id, ReachableFrom prog.descriptors app.modules id ∧
      e.binding ∈ prog.providersOf id := by
    obtain ⟨done, hp, -, rfl⟩ := runEvents_ok hrun
    rw [hfinal, log_provideAll, Container.log_afterAll, log_start hf, List.nil_append] at he
    have hmem := List.mem_map_of_mem (f := Built.binding) he
    rw [Container.binding_entries, hp.mem_iff] at hmem
    obtain ⟨event, hevent, hb⟩ := List.mem_flatMap.mp hmem
    obtain ⟨id, rfl⟩ := schedule_bare h.bare app.linked hevent
    exact ⟨id, (mem_schedule app.linked id).mp hevent, hb⟩
  have hid := (mem_schedule app.linked id).mpr hr
  obtain ⟨pre, post, hsplit⟩ := List.append_of_mem hid
  obtain ⟨pre', post', hsplit'⟩ := List.append_of_mem
    ((schedule_perm h.bare app.linked hre.program hre.modules).mem_iff.mpr hid)
  obtain ⟨d, bpre, bpost, ht⟩ := exists_turnOf h hc hf hsplit hb
  obtain ⟨d', bpre', bpost', ht'⟩ := exists_turnOf h' hc' hf' hsplit' (hre.providers id ▸ hb)
  obtain rfl := same_turn h hre ht ht'
  rw [(ht.entry e).mp ⟨he, rfl⟩, (ht'.entry e').mp ⟨he', hbinding⟩, optionals_entry,
    optionals_entry]
  refine List.map_congr_left fun f hfield => ?_
  obtain ⟨hfield, ho⟩ := List.mem_filter.mp hfield
  have hk := hrel id hr _ hb heager f hfield ho
  refine congrArg (f, ·) (Bool.eq_iff_iff.mpr ?_)
  rw [Container.contains_afterAll, Container.contains_afterAll]
  refine or_congr_left ⟨?_, ?_⟩
  · exact related_turn h' hre.symm hf' ht'.split ht.split ht'.before ht.before (hk.reorders hre)
  · exact related_turn h hre hf ht.split ht'.split ht.before ht'.before hk

/-! ## Orders that tell unrelated modules apart -/

/-- A boot carries over to every order of the imports and roots. -/
theorem builds_imports (h : Modular app) (hown : RegistersOwn prog app.modules)
    (hre : app.ReordersImports app') (hok : (app.build order).isOk = true) :
    ∃ c', app'.build order' = .ok c' := by
  obtain ⟨c, hc⟩ := isOk_iff.mp hok
  obtain ⟨c₀, c₁, hf, hrun, hv, hm, -⟩ := (build_eq_ok app).mp hc
  have h' := h.reorders hre.toReorders
  have hv' : validateAccessGraph prog'.descriptors order' app'.modules c₀.contains = .ok () :=
    (validations_reorders hre.program hre.modules c₀.contains).1 hv
  have hm' : validateResolverMembership prog'.descriptors order' app'.modules prog'.resolvers =
      .ok () := (validations_reorders hre.program hre.modules c₀.contains).2 hm
  obtain ⟨d, hd⟩ : ∃ d, prog'.runEvents (prog'.schedule app'.modules) c₀ = .ok d := by
    refine runEvents_of_turns h'.bare app'.linked fun pre' id post' d' hsplit' hrun' => ?_
    have hid : Sum.inl id ∈ prog.schedule app.modules := by
      rw [← (schedule_perm h.bare app.linked hre.program hre.modules).mem_iff, hsplit']
      simp
    obtain ⟨pre, post, hsplit⟩ := List.append_of_mem hid
    rw [hsplit] at hrun
    obtain ⟨d, e, hpre, hregister, -⟩ := turn_of_runEvents hrun
    obtain ⟨done, -, -, rfl⟩ := registerProviders_ok hregister
    rw [hre.providers id]
    exact ⟨_, registerProviders_congr
      (agreeOn_of_access h hown hre hv hsplit hsplit' hpre hrun') hregister⟩
  exact ⟨_, (build_eq_ok app').mpr
    ⟨c₀, d, (start_reorders h.bare hre.toReorders).trans hf, hd, hv', hm', rfl⟩⟩

/-- The import leads to the module `t`. -/
def LeadsTo (prog : Program) (t : TypeId) (i : Import) : Prop :=
  ∃ v, i = Sum.inl v ∧ InClosure prog.descriptors v t

open Classical in
/-- The imports with those that lead to `t` first. -/
noncomputable def towards (prog : Program) (t : TypeId) (is : List Import) : List Import :=
  is.filter (fun i => LeadsTo prog t i) ++ is.filter (fun i => ¬ LeadsTo prog t i)

theorem towards_perm (t : TypeId) (is : List Import) : (towards prog t is).Perm is := by
  classical
  unfold towards
  simpa using List.filter_append_perm (fun i => decide (LeadsTo prog t i)) is

theorem towards_first (t : TypeId) {is : List Import}
    (h : ∃ v, Sum.inl v ∈ is ∧ InClosure prog.descriptors v t) :
    ∃ v rest, towards prog t is = Sum.inl v :: rest ∧ InClosure prog.descriptors v t := by
  classical
  obtain ⟨v, hv, hvt⟩ := h
  have hmem : Sum.inl v ∈ is.filter (fun i => LeadsTo prog t i) :=
    List.mem_filter.mpr ⟨hv, by simpa using ⟨v, rfl, hvt⟩⟩
  unfold towards
  cases hfilter : is.filter (fun i => LeadsTo prog t i) with
  | nil =>
    rw [hfilter] at hmem
    exact absurd hmem List.not_mem_nil
  | cons i rest =>
    have hi : i ∈ is.filter (fun i => LeadsTo prog t i) := hfilter ▸ List.mem_cons_self
    obtain ⟨u, rfl, hut⟩ := of_decide_eq_true (List.mem_filter.mp hi).2
    exact ⟨u, _, rfl, hut⟩

/-- The module with its imports that lead to `t` first. -/
noncomputable def importTowards (prog : Program) (t : TypeId) (m : ModuleDecl) : ModuleDecl :=
  { m with imports := towards prog t m.imports }

theorem reorders_importTowards (t : TypeId) (m : ModuleDecl) :
    m.Reorders (importTowards prog t m) := ⟨rfl, rfl, towards_perm t m.imports, .refl _⟩

theorem program_importTowards (prog : Program) (t id : TypeId) :
    (prog.reorder (importTowards prog t) (reorders_importTowards t)).importsOf id =
        towards prog t (prog.importsOf id) ∧
      (prog.reorder (importTowards prog t) (reorders_importTowards t)).providersOf id =
        prog.providersOf id := by
  unfold Program.importsOf Program.providersOf
  rw [find_reorder]
  cases prog.find id with
  | none => exact ⟨by simp [towards], rfl⟩
  | some m => exact ⟨rfl, rfl⟩

/-- **Any reachable module can be finished first**, after what it imports. -/
theorem exists_first (h : Modular app) {t : TypeId}
    (ht : ReachableFrom prog.descriptors app.modules t) :
    ∃ (prog' : Program) (app' : AppBuilder prog'), app.ReordersImports app' ∧
      ∃ pre post, prog'.schedule app'.modules = pre ++ Sum.inl t :: post ∧
        ∀ x, Sum.inl x ∈ pre → InClosure prog.descriptors t x := by
  have hreorders := reorders_reorder prog (importTowards prog t) (reorders_importTowards t)
  have hroots : (vertices (towards prog t (app.modules.map Sum.inl))).Perm app.modules := by
    refine ((towards_perm t _).filterMap _).trans (List.Perm.of_eq ?_)
    simp [List.filterMap_map, Function.comp_def]
  let app' : AppBuilder (prog.reorder (importTowards prog t) (reorders_importTowards t)) :=
    { app with
      modules := vertices (towards prog t (app.modules.map Sum.inl))
      linked := linked_reorders hreorders hroots app.linked }
  have hre : app.ReordersImports app' :=
    ⟨⟨hreorders, rfl, rfl, rfl, hroots⟩, fun id => (program_importTowards prog t id).2⟩
  have hreach : Reaches (fun v => vertices ((prog.reorder (importTowards prog t)
      (reorders_importTowards t)).importsOf v)) = InClosure prog.descriptors := by
    unfold Reaches
    rw [edge_eq_imports]
    exact inClosure_reorders hreorders
  have hfirst : ∀ is : List Import, Visits.FirstTo (prog.reorder (importTowards prog t)
      (reorders_importTowards t)).importsOf t (towards prog t is) := by
    intro is hex
    rw [hreach] at hex ⊢
    obtain ⟨v, hv, hvt⟩ := hex
    exact towards_first t ⟨v, (towards_perm t is).mem_iff.mp hv, hvt⟩
  have hitems : app'.modules.map Sum.inl = towards prog t (app.modules.map Sum.inl) := by
    refine map_inl_vertices fun i hi => ?_
    obtain ⟨v, -, hv⟩ := List.mem_map.mp ((towards_perm t _).mem_iff.mp hi)
    exact ⟨v, hv.symm⟩
  obtain ⟨marked, hv⟩ := exists_schedule app'.linked
  rw [hitems] at hv
  obtain ⟨pre, post, hsplit, hpre⟩ := hv.leaves_first (acyclic_reorders hreorders h.acyclic)
    (fun v => by
      rw [(program_importTowards prog t v).1]
      exact hfirst _) [] (hfirst _) (by
      rw [hreach]
      obtain ⟨r, hr, hrt⟩ := ht
      exact ⟨r, (towards_perm t _).mem_iff.mpr (List.mem_map.mpr ⟨r, hr, rfl⟩), hrt⟩)
    List.not_mem_nil (by simp) (by simp)
  rw [hreach] at hpre
  exact ⟨_, app', hre, pre, post, hsplit, hpre⟩

/-- A field finds the key of an unrelated module iff that module comes earlier. -/
theorem contains_unrelated (h : Modular app) (hre : app.ReordersImports app') {c₀ c : Container}
    (hf : runFactories app.queued app.container = .ok c₀) {id n : TypeId}
    {b x : ProviderBinding} {pre post : List Import} {d : Container}
    {bpre bpost : List ProviderBinding} (ht : TurnOf app' c₀ c id b pre post d bpre bpost)
    (hn : ReachableFrom prog.descriptors app.modules n) (hne : n ≠ id)
    (hx : x ∈ prog.providersOf n) {k : TypeId} (hk : k ∈ x.adds) (hglobal : ¬ app.Global k) :
    (d.afterAll bpre).contains k = true ↔ Sum.inl n ∈ pre := by
  have h' := h.reorders hre.toReorders
  obtain ⟨hr, hbefore⟩ := reachable_of_before app'.linked ht.split
  have hn' := (reachable_reorders hre.program hre.modules n).mpr hn
  have hx' : x ∈ prog'.providersOf n := hre.providers n ▸ hx
  have howner : ∀ m, ReachableFrom prog'.descriptors app'.modules m →
      ∀ y ∈ prog'.providersOf m, k ∈ y.adds → m = n := fun m hm y hy hyk =>
    (h'.distinct.owner m n hm hn' y hy x hx' k (List.mem_cons_of_mem _ hyk)
      (List.mem_cons_of_mem _ hk)).1
  rw [Container.contains_afterAll, contains_before h'.bare app'.linked ht.split ht.before]
  constructor
  · rintro ((hc | ⟨m, hm, y, hy, hyk⟩) | ⟨y, hy, hyk⟩)
    · exact absurd ((global_iff h hf k).mp hc) hglobal
    · rwa [howner m (hbefore m hm).2 y hy hyk] at hm
    · have hy' := ht.perm.mem_iff.mp (List.mem_append_left _ hy)
      exact absurd (howner id hr y hy' hyk).symm hne
  · exact fun hmem => Or.inl (Or.inr ⟨n, hmem, x, hx', hk⟩)

/-- An optional field reads the same in the entries of two boots that agree on it. -/
theorem contains_of_optionals {b : ProviderBinding} {d d' : Container} {f : InjectField}
    (hf : f ∈ b.reads) (ho : f.optional = true)
    (h : Built.optionals ⟨b, b.reads.map fun f => (f, d'.get f.key)⟩ =
      Built.optionals ⟨b, b.reads.map fun f => (f, d.get f.key)⟩) :
    d'.contains f.key = d.contains f.key := by
  rw [optionals_entry, optionals_entry, List.map_inj_left] at h
  exact (Prod.mk.injEq _ _ _ _).mp (h f (List.mem_filter.mpr ⟨hf, ho⟩)) |>.2

/-- With an optional key supplied by an unrelated module, some order of the imports finds it and
another does not. -/
theorem related_of_optionalStable (h : Modular app) (hown : RegistersOwn prog app.modules)
    (hok : (app.build order).isOk = true) (hstable : OptionalStable app) {id : TypeId}
    (hr : ReachableFrom prog.descriptors app.modules id) {b : ProviderBinding}
    (hb : b ∈ prog.providersOf id) (heager : b.provider.eager = true) {f : InjectField}
    (hfield : f ∈ b.reads) (ho : f.optional = true) : SuppliersRelated app id f.key := by
  by_contra hno
  unfold SuppliersRelated at hno
  simp only [not_or, not_forall] at hno
  obtain ⟨hglobal, n, hn, x, hx, hk, hidn, hnid⟩ := hno
  have hne : n ≠ id := by
    rintro rfl
    exact hidn .refl
  obtain ⟨c, hc⟩ := isOk_iff.mp hok
  obtain ⟨c₀, -, hf, -⟩ := (build_eq_ok app).mp hc
  obtain ⟨pre, post, hsplit⟩ := List.append_of_mem ((mem_schedule app.linked id).mpr hr)
  obtain ⟨d, bpre, bpost, ht⟩ := exists_turnOf h hc hf hsplit hb
  have hself : app.ReordersImports app := ⟨.refl app, fun _ => rfl⟩
  -- what the field finds in this order, it finds in every order
  have hsame : ∀ (prog' : Program) (app' : AppBuilder prog'), app.ReordersImports app' →
      ∀ pre' post', prog'.schedule app'.modules = pre' ++ Sum.inl id :: post' →
        (Sum.inl n ∈ pre' ↔ Sum.inl n ∈ pre) := by
    intro prog' app' hre pre' post' hsplit'
    obtain ⟨c', hc'⟩ : ∃ c', app'.build order = .ok c' := builds_imports h hown hre hok
    obtain ⟨d', bpre', bpost', ht'⟩ := exists_turnOf (h.reorders hre.toReorders) hc'
      ((start_reorders h.bare hre.toReorders).trans hf) hsplit' (hre.providers id ▸ hb)
    have hopt := hstable prog' app' order order c c' hre hc hc' _ ((ht.entry _).mpr rfl).1 _
      ((ht'.entry _).mpr rfl).1 rfl heager
    rw [← contains_unrelated h hre hf ht' hn hne hx hk hglobal,
      ← contains_unrelated h hself hf ht hn hne hx hk hglobal, contains_of_optionals hfield ho hopt]
  -- `id` first, then `n` first
  obtain ⟨prog₁, app₁, hre₁, pre₁, post₁, hsplit₁, hpre₁⟩ := exists_first h hr
  obtain ⟨prog₂, app₂, hre₂, pre₂, post₂, hsplit₂, hpre₂⟩ := exists_first h hn
  have hafter : Sum.inl n ∉ pre := fun hmem =>
    hidn (hpre₁ n ((hsame prog₁ app₁ hre₁ pre₁ post₁ hsplit₁).mpr hmem))
  have hpost : Sum.inl id ∈ post₂ := by
    have hid : Sum.inl id ∈ prog₂.schedule app₂.modules :=
      (schedule_perm h.bare app.linked hre₂.program hre₂.modules).mem_iff.mpr
        ((mem_schedule app.linked id).mpr hr)
    rw [hsplit₂, List.mem_append, List.mem_cons] at hid
    rcases hid with hid | hid | hid
    · exact absurd (hpre₂ id hid) hnid
    · exact absurd (Sum.inl.inj hid).symm hne
    · exact hid
  obtain ⟨p, q, rfl⟩ := List.append_of_mem hpost
  refine hafter ((hsame prog₂ app₂ hre₂ (pre₂ ++ Sum.inl n :: p) q ?_).mp (by simp))
  rw [hsplit₂, List.append_assoc, List.cons_append]

/-- **When optional injection does not depend on import order.** For an application of bare,
acyclic imports with distinct provider keys: no order of imports and roots changes whether an
optional field of an eagerly built provider is set, if every supplier of such a field is global or
in a module related to the field's by imports; and for an application that boots, whose providers
register no further keys, only then. -/
theorem optional_import_order {prog : Program} (app : AppBuilder prog) (h : Modular app) :
    ((∀ id, ReachableFrom prog.descriptors app.modules id → ∀ b ∈ prog.providersOf id,
        b.provider.eager = true → ∀ f ∈ b.provider.fields, f.optional = true →
          SuppliersRelated app id f.key) → OptionalStable app) ∧
      (RegistersOwn prog app.modules → (∃ order, (app.build order).isOk = true) →
        OptionalStable app →
        ∀ id, ReachableFrom prog.descriptors app.modules id → ∀ b ∈ prog.providersOf id,
          b.provider.eager = true → ∀ f ∈ b.provider.fields, f.optional = true →
            SuppliersRelated app id f.key) := by
  constructor
  · intro hrel
    refine optionalStable_of_related h fun id hr b hb heager f hf => ?_
    rw [ProviderBinding.reads_of_eager heager] at hf
    exact hrel id hr b hb heager f hf
  · rintro hown ⟨order, hok⟩ hstable id hr b hb heager f hf
    rw [← ProviderBinding.reads_of_eager heager] at hf
    exact related_of_optionalStable h hown hok hstable hr hb heager hf

/-- `Metrics`, an injectable without dependencies. -/
def metricsBinding : ProviderBinding := .concrete ⟨20, "Metrics", [], .injectable⟩

/-- `Checkout`, an injectable that uses `Metrics` if there is one. -/
def checkoutBinding : ProviderBinding :=
  .concrete ⟨10, "Checkout", [⟨"metrics", 20, "Metrics", true⟩], .injectable⟩

/-- `CheckoutModule`, which imports `MetricsModule` or does not. -/
def checkoutProgram (importsMetrics : Bool) : Program where
  modules := [⟨1, "CheckoutModule", if importsMetrics then [Sum.inl 2] else [], [checkoutBinding]⟩,
    ⟨2, "MetricsModule", [], [metricsBinding]⟩]
  resolvers := []
  distinct := by simp
  linked m hm id hid := by
    simp only [List.mem_cons, List.not_mem_nil, or_false] at hm
    rcases hm with rfl | rfl
    · cases importsMetrics with
      | false => exact absurd hid List.not_mem_nil
      | true =>
        rw [Sum.inl.inj (List.mem_singleton.mp hid)]
        decide
    · exact absurd hid List.not_mem_nil

/-- The application over the two modules, or over them the other way round. -/
def checkoutApp (importsMetrics metricsFirst : Bool) :
    AppBuilder (checkoutProgram importsMetrics) where
  seeds := []
  factories := []
  modules := if metricsFirst then [2, 1] else [1, 2]
  overrides := []
  linked := by
    unfold Program.Linked
    cases metricsFirst <;> cases importsMetrics <;> decide

theorem checkoutProgram_providers {importsMetrics : Bool} {id : TypeId} {b : ProviderBinding}
    (h : b ∈ (checkoutProgram importsMetrics).providersOf id) :
    (id = 1 ∧ b = checkoutBinding) ∨ (id = 2 ∧ b = metricsBinding) := by
  obtain ⟨m, hm, rfl, hb⟩ := mem_providersOf.mp h
  simp only [checkoutProgram, List.mem_cons, List.not_mem_nil, or_false] at hm
  rcases hm with rfl | rfl
  · exact Or.inl ⟨rfl, by simpa using hb⟩
  · exact Or.inr ⟨rfl, by simpa using hb⟩

theorem checkoutProgram_imports {importsMetrics : Bool} {id : TypeId} {i : Import}
    (h : i ∈ (checkoutProgram importsMetrics).importsOf id) : id = 1 ∧ i = Sum.inl 2 := by
  obtain ⟨m, hm, rfl, hi⟩ := mem_importsOf.mp h
  simp only [checkoutProgram, List.mem_cons, List.not_mem_nil, or_false] at hm
  rcases hm with rfl | rfl
  · cases importsMetrics with
    | false => exact absurd hi List.not_mem_nil
    | true => exact ⟨rfl, List.mem_singleton.mp hi⟩
  · exact absurd hi List.not_mem_nil

theorem checkoutApp_modular (importsMetrics metricsFirst : Bool) :
    Modular (checkoutApp importsMetrics metricsFirst) where
  bare m hm i hi := ⟨2, (checkoutProgram_imports (mem_importsOf.mpr ⟨m, hm, rfl, hi⟩)).2⟩
  acyclic := by
    refine not_transGen_of_rank (fun v => 2 - v) fun v u hvu => ?_
    obtain ⟨rfl, hu⟩ := checkoutProgram_imports (mem_vertices.mp hvu)
    rw [Sum.inl.inj hu]
    decide
  distinct := by
    refine ⟨fun id _ => nodup_providersOf (fun m hm => ?_) id,
      fun id n _ _ b hb x hx k hk hk' => ?_⟩
    · simp only [checkoutProgram, List.mem_cons, List.not_mem_nil, or_false] at hm
      rcases hm with rfl | rfl
      · exact List.nodup_singleton _
      · exact List.nodup_singleton _
    · rcases checkoutProgram_providers hb with ⟨rfl, rfl⟩ | ⟨rfl, rfl⟩ <;>
        rcases checkoutProgram_providers hx with ⟨rfl, rfl⟩ | ⟨rfl, rfl⟩
      · exact ⟨rfl, rfl⟩
      · exact absurd hk' (by revert k; decide)
      · exact absurd hk' (by revert k; decide)
      · exact ⟨rfl, rfl⟩

/-- With the import, `Checkout` finds `Metrics` in every order. -/
theorem checkout_imports_metrics :
    ((checkoutApp true false).build .newestFirst).isOk = true ∧
      OptionalStable (checkoutApp true false) := by
  refine ⟨by decide, (optional_import_order (checkoutApp true false)
    (checkoutApp_modular true false)).1 fun id _ b hb _ f hf _ => Or.inr fun n _ x hx hk => ?_⟩
  rcases checkoutProgram_providers hb with ⟨rfl, rfl⟩ | ⟨rfl, rfl⟩
  · rcases checkoutProgram_providers hx with ⟨rfl, rfl⟩ | ⟨rfl, rfl⟩
    · exact Or.inl .refl
    · exact Or.inl (.single ⟨_, List.mem_cons_self, rfl, by decide⟩)
  · exact absurd hf List.not_mem_nil

/-- Without it, `Checkout` has a `Metrics` iff `MetricsModule` is listed first. -/
theorem checkout_order_matters :
    Modular (checkoutApp false false) ∧ ¬ OptionalStable (checkoutApp false false) := by
  refine ⟨checkoutApp_modular false false, fun hstable => ?_⟩
  have hre : (checkoutApp false false).ReordersImports (checkoutApp false true) :=
    ⟨⟨.refl _, rfl, rfl, rfl, .swap _ _ _⟩, fun _ => rfl⟩
  have hoff : ((checkoutApp false false).build .newestFirst).toOption.map
      (fun c => c.log.find? fun e => e.binding = checkoutBinding) =
        some (some ⟨checkoutBinding, [(⟨"metrics", 20, "Metrics", true⟩, none)]⟩) := by decide
  have hon : ((checkoutApp false true).build .newestFirst).toOption.map
      (fun c => c.log.find? fun e => e.binding = checkoutBinding) =
        some (some ⟨checkoutBinding,
          [(⟨"metrics", 20, "Metrics", true⟩, some (.built 20 20))]⟩) := by decide
  cases hc : (checkoutApp false false).build .newestFirst with
  | error e =>
    rw [hc] at hoff
    exact nomatch hoff
  | ok c =>
    cases hc' : (checkoutApp false true).build .newestFirst with
    | error e =>
      rw [hc'] at hon
      exact nomatch hon
    | ok c' =>
      rw [hc] at hoff
      rw [hc'] at hon
      have hopt := hstable _ _ _ _ c c' hre hc hc' _
        (List.mem_of_find?_eq_some (Option.some.inj hoff)) _
        (List.mem_of_find?_eq_some (Option.some.inj hon)) rfl rfl
      exact absurd hopt (by decide)

end Boot

end Nestrs.Core
