import Nestrs.Core.BuilderCalls

/-!
# Overrides and the request scope

Model of `RequestScope` (`crates/nestrs-core/src/scope.rs`) and of what the override methods of
`AppBuilder` achieve. The override phase comes last, and `override_value` says of its value that it
"wins". It does in the `Container`: `replace` and `provide_dyn` put it into `providers`, where `get`
and `get_dyn` look.

A `RequestScope` looks elsewhere first. `#[injectable(scope = request)]` registers no value but a
factory, `RequestScope::get` asks for a factory before it asks the container, and no override
touches the factories. For a request-scoped type the two therefore answer differently: the
container with the override, the request with an instance of the real provider.

A factory reads its fields from the container at every request, long after the override phase. So
a request-scoped type that nobody overrides is built with the overrides of what it injects, where a
singleton has kept what it found when it was registered.

A scope's cache holds the instances it has built; a factory that panics leaves it as it was.

Results:
* `resolve_after`: whatever a scope was asked for before, it resolves a type as when it was opened;
* `resolve_eq_iff`: overrides change nothing of what a factory builds iff they leave its fields
  alone;
* **`overrides_win_iff`**: overrides win everywhere, and touch nothing else, iff no overridden type
  has a request-scoped provider in the module tree, and the overrides leave the fields of each
  factory alone.
-/

namespace Nestrs.Core

open Nestrs.Lib

/-! ## The scope of a request -/

/-- What a scope hands out: an `Arc` of the container, or the instance it built, by the provider
and what each of its fields found. -/
inductive Instance where
  | shared (value : AnyArc)
  | scoped (provider : Provider) (fields : List (InjectField × Option AnyArc))
deriving DecidableEq, Repr

/-- `RequestScope`. -/
structure RequestScope where
  root : Container
  cache : TypeId → Option Instance

namespace RequestScope

/-- `RequestScope::new`. -/
def new (root : Container) : RequestScope := ⟨root, fun _ => none⟩

/-- `RequestScope::get`: the result, or the panic of `from_container`, and the scope after it. -/
def get (s : RequestScope) (key : TypeId) : Except Panic (Option Instance) × RequestScope :=
  match s.root.scopedFactories key with
  | some p =>
    match s.cache key with
    | some i => (.ok (some i), s)
    | none =>
      match resolveFields p.name s.root p.fields with
      | .ok fields =>
        (.ok (some (.scoped p fields)),
          { s with cache := fun k => if k = key then some (.scoped p fields) else s.cache k })
      | .error panic => (.error panic, s)
  | none => (.ok ((s.root.get key).map .shared), s)

/-- The scope after it was asked for these types. -/
def after (s : RequestScope) (keys : List TypeId) : RequestScope :=
  keys.foldl (fun s key => (s.get key).2) s

end RequestScope

/-- The first resolution of a type from a scope over the container. -/
def Container.resolve (c : Container) (key : TypeId) : Except Panic (Option Instance) :=
  match c.scopedFactories key with
  | some p => (resolveFields p.name c p.fields).map fun fields => some (.scoped p fields)
  | none => .ok ((c.get key).map .shared)

namespace RequestScope

/-- Each cached instance is what the factory of its type builds. -/
structure Inv (root : Container) (s : RequestScope) : Prop where
  root_eq : s.root = root
  cached : ∀ key i, s.cache key = some i →
    ∃ p fields, root.scopedFactories key = some p ∧
      resolveFields p.name root p.fields = .ok fields ∧ i = .scoped p fields

theorem inv_new (root : Container) : Inv root (new root) where
  root_eq := rfl
  cached _ _ h := nomatch h

/-- One resolution: the answer is that of a scope just opened, and the cache stays right. -/
theorem get_spec {root : Container} {s : RequestScope} (h : Inv root s) (key : TypeId) :
    (s.get key).1 = root.resolve key ∧ Inv root (s.get key).2 := by
  obtain ⟨root', cache⟩ := s
  obtain ⟨rfl, hcached⟩ := h
  cases hp : root'.scopedFactories key with
  | none =>
    simp only [get, Container.resolve, hp, true_and]
    exact ⟨rfl, hcached⟩
  | some p =>
    cases hi : cache key with
    | some i =>
      obtain ⟨q, fields, hq, hf, rfl⟩ := hcached key i hi
      obtain rfl : p = q := Option.some.inj (hp.symm.trans hq)
      simp only [get, Container.resolve, hp, hi, hf]
      exact ⟨rfl, rfl, hcached⟩
    | none =>
      cases hf : resolveFields p.name root' p.fields with
      | error panic =>
        simp only [get, Container.resolve, hp, hi, hf]
        exact ⟨rfl, rfl, hcached⟩
      | ok fields =>
        simp only [get, Container.resolve, hp, hi, hf]
        refine ⟨rfl, rfl, fun k i hk => ?_⟩
        by_cases hkey : k = key
        · simp only [if_pos hkey] at hk
          cases hk
          exact ⟨p, fields, hkey ▸ hp, hf, rfl⟩
        · simp only [if_neg hkey] at hk
          exact hcached k i hk

theorem inv_after {root : Container} (keys : List TypeId) {s : RequestScope} (h : Inv root s) :
    Inv root (s.after keys) := by
  induction keys generalizing s with
  | nil => exact h
  | cons key keys ih => exact ih (get_spec h key).2

/-- **A scope's answers do not depend on what it was asked before.** -/
theorem resolve_after (root : Container) (keys : List TypeId) (key : TypeId) :
    (((new root).after keys).get key).1 = root.resolve key :=
  (get_spec (inv_after keys (inv_new root)) key).1

end RequestScope

theorem resolve_of_no_factory {c : Container} {key : TypeId} (h : c.scopedFactories key = none) :
    c.resolve key = .ok ((c.get key).map .shared) := by
  unfold Container.resolve
  rw [h]

theorem resolve_of_factory {c : Container} {key : TypeId} {p : Provider}
    (h : c.scopedFactories key = some p) :
    c.resolve key =
      (resolveFields p.name c p.fields).map fun fields => some (.scoped p fields) := by
  unfold Container.resolve
  rw [h]

/-! ## What a factory finds -/

/-- The first of the fields that is required and that no type in `holds` answers. -/
def firstMissing (holds : TypeId → Bool) (fs : List InjectField) : Option InjectField :=
  fs.find? fun f => !f.optional && !holds f.key

theorem firstMissing_eq_none {holds : TypeId → Bool} {fs : List InjectField} :
    firstMissing holds fs = none ↔ ∀ f ∈ fs, f.optional = false → holds f.key = true := by
  simp [firstMissing]

/-- The fields are initialised with what the container holds, or the first required one that it
does not hold is in the panic. -/
theorem resolveFields_eq (name : String) (c : Container) (fs : List InjectField) :
    resolveFields name c fs =
      match firstMissing c.contains fs with
      | none => .ok (fs.map fun f => (f, c.get f.key))
      | some f => .error
          (.expect (name ++ "." ++ f.name ++ ": no provider registered for this dependency")) := by
  induction fs with
  | nil => rfl
  | cons f fs ih =>
    have hpass : (!f.optional && !c.contains f.key) = false →
        firstMissing c.contains (f :: fs) = firstMissing c.contains fs := by
      intro h
      exact List.find?_cons_of_neg (by simp [h])
    unfold resolveFields
    cases hget : c.get f.key with
    | some value =>
      have hf : c.contains f.key = true := by
        unfold Container.get at hget
        simp [Container.contains, hget]
      rw [hpass (by simp [hf])]
      simp only [ih]
      cases firstMissing c.contains fs <;> simp [hget, bind, Except.bind]
    | none =>
      cases hopt : f.optional with
      | true =>
        rw [hpass (by simp [hopt]), if_pos rfl]
        simp only [ih]
        cases firstMissing c.contains fs <;> simp [hget, bind, Except.bind]
      | false =>
        have hstop : firstMissing c.contains (f :: fs) = some f :=
          List.find?_cons_of_pos (by simp [hopt, Container.get_eq_none.mp hget])
        simp [hstop]

/-- The overrides `last` leave alone what a factory finds in the container `c`: if it finds every
field it requires, none is overridden with anything but the very value it finds, and if it panics,
it panics over the same field with the overrides. -/
def LeavesAlone (last : TypeId → Option AnyArc) (c : Container) (fs : List InjectField) : Prop :=
  match firstMissing c.contains fs with
  | none => ∀ f ∈ fs, last f.key = none ∨ last f.key = c.get f.key
  | some f => ∃ g,
      firstMissing (fun key => (last key).isSome || c.contains key) fs = some g ∧ g.name = f.name

/-- **When overrides change nothing of what a factory builds.** -/
theorem resolveFields_eq_iff {last : TypeId → Option AnyArc} {c c' : Container}
    (hget : ∀ key, c'.get key = (last key).or (c.get key)) (p : Provider) :
    (resolveFields p.name c' p.fields).map (fun fields => some (Instance.scoped p fields)) =
        (resolveFields p.name c p.fields).map (fun fields => some (Instance.scoped p fields)) ↔
      LeavesAlone last c p.fields := by
  have hholds : c'.contains = fun key => (last key).isSome || c.contains key := by
    funext key
    have h := congrArg Option.isSome (hget key)
    rwa [Option.isSome_or] at h
  rw [resolveFields_eq, resolveFields_eq, hholds]
  unfold LeavesAlone
  cases hc : firstMissing c.contains p.fields with
  | none =>
    -- what the container alone has, the container with the overrides has
    have hc' : firstMissing (fun key => (last key).isSome || c.contains key) p.fields = none :=
      firstMissing_eq_none.mpr fun f hf hopt => by simp [firstMissing_eq_none.mp hc f hf hopt]
    simp only [hc', Except.map, Except.ok.injEq, Option.some.injEq, Instance.scoped.injEq,
      true_and, List.map_inj_left, Prod.mk.injEq, hget]
    refine forall₂_congr fun f _ => ?_
    cases last f.key with
    | none => simp
    | some v => simp
  | some f =>
    cases firstMissing (fun key => (last key).isSome || c.contains key) p.fields with
    | none => simp [Except.map]
    | some g => simp [Except.map, String.append_left_inj, String.append_right_inj]

/-! ## Where factories come from -/

/-- The binding registers a factory for the type: it is listed as itself, not as a trait object,
and is request-scoped. -/
def ProviderBinding.ScopedAs (key : TypeId) (b : ProviderBinding) : Prop :=
  ∃ p, b = .concrete p ∧ p.kind = .requestScoped ∧ p.type = key

/-- A module that the boot registers lists the type as a request-scoped provider. -/
def ScopedIn (prog : Program) (roots : List TypeId) (key : TypeId) : Prop :=
  ∃ m ∈ prog.modules, ReachableFrom prog.descriptors roots m.id ∧
    ((∃ b ∈ m.providers, b.ScopedAs key) ∨
      ∃ d, Sum.inr d ∈ m.imports ∧ ∃ b ∈ d.bindings, b.ScopedAs key)

theorem scopedFactories_after (c : Container) (b : ProviderBinding) (key : TypeId) :
    (c.after b).scopedFactories key ≠ none ↔
      c.scopedFactories key ≠ none ∨ b.ScopedAs key := by
  cases b with
  | concrete p =>
    by_cases h : p.kind = .requestScoped ∧ key = p.type
    · have hs : (ProviderBinding.concrete p).ScopedAs key := ⟨p, rfl, h.1, h.2.symm⟩
      simp [Container.after, if_pos h, hs]
    · have hs : ¬ (ProviderBinding.concrete p).ScopedAs key := by
        rintro ⟨q, hq, hkind, htype⟩
        cases hq
        exact h ⟨hkind, htype.symm⟩
      simp [Container.after, if_neg h, hs]
  | dyn p traitName traitKey =>
    have hs : ¬ (ProviderBinding.dyn p traitName traitKey).ScopedAs key := by
      rintro ⟨q, hq, -⟩
      cases hq
    simp [Container.after, hs]

theorem scopedFactories_afterAll (c : Container) (bs : List ProviderBinding) (key : TypeId) :
    (c.afterAll bs).scopedFactories key ≠ none ↔
      c.scopedFactories key ≠ none ∨ ∃ b ∈ bs, b.ScopedAs key := by
  induction bs generalizing c with
  | nil => simp
  | cons b bs ih =>
    rw [Container.afterAll_cons, ih, scopedFactories_after, List.exists_mem_cons_iff, or_assoc]

theorem scopedFactories_provideAll (values : List (TypeId × AnyArc)) (c : Container) :
    (provideAll values c).scopedFactories = c.scopedFactories := by
  unfold provideAll
  induction values generalizing c with
  | nil => rfl
  | cons v values ih => exact ih (c.provide v.1 v.2)

theorem scopedFactories_runFactories {fs : List Factory} {c c' : Container}
    (h : runFactories fs c = .ok c') : c'.scopedFactories = c.scopedFactories := by
  induction fs generalizing c with
  | nil =>
    cases h
    rfl
  | cons f fs ih =>
    rw [runFactories] at h
    by_cases hc : c.contains f.key = true
    · rw [if_pos hc] at h
      exact ih h
    · rw [if_neg hc, bind_eq_ok] at h
      obtain ⟨value, -, h⟩ := h
      have hkept := ih h
      exact hkept

/-- After a boot, a type has a factory iff the module tree lists it as request-scoped. -/
theorem scopedFactories_build {prog : Program} {app : AppBuilder prog} {order : HashOrder}
    {c : Container} (h : app.build order = .ok c) (key : TypeId) :
    c.scopedFactories key ≠ none ↔ ScopedIn prog app.modules key := by
  obtain ⟨c₀, c₁, hf, hrun, -, -, rfl⟩ := (build_eq_ok app).mp h
  obtain ⟨done, hp, -, rfl⟩ := runEvents_ok hrun
  have hnone : c₀.scopedFactories key = none := by
    rw [scopedFactories_runFactories hf, AppBuilder.container, scopedFactories_provideAll]
    rfl
  rw [scopedFactories_provideAll, scopedFactories_afterAll, hnone]
  unfold ScopedIn
  rw [← exists_scheduled_iff app.linked]
  simp only [hp.mem_iff, ne_eq, not_true_eq_false, false_or]

/-! ## Overriding -/

section Overriding

variable {prog : Program}

/-- The last override given for the type. -/
def lastOverride (calls : List (Call prog)) (key : TypeId) : Option AnyArc :=
  ((calls.filterMap Call.override).reverse.find? fun v => v.1 = key).map Prod.snd

/-- The same calls without the overrides. -/
def withoutOverrides (calls : List (Call prog)) : List (Call prog) :=
  calls.filter fun call => call.override.isNone

/-- **Overrides win everywhere**: `c'` is the container of a boot with overrides, `c` that of the
same boot without them, `last` the last override of each type. `gets` is what a scope was asked for
before. -/
structure OverridesWin (last : TypeId → Option AnyArc) (c c' : Container) : Prop where
  /-- The container resolves an overridden type to its last override. -/
  container : ∀ key v, last key = some v → c'.get key = some v
  /-- So does every scope, at any time. -/
  scope : ∀ gets key v, last key = some v →
    (((RequestScope.new c').after gets).get key).1 = .ok (some (.shared v))
  /-- The container resolves any other type as it would without the overrides. -/
  others : ∀ key, last key = none → c'.get key = c.get key
  /-- So does every scope, panics included. -/
  othersInScope : ∀ gets key, last key = none →
    (((RequestScope.new c').after gets).get key).1 = (((RequestScope.new c).after gets).get key).1

/-- A boot with overrides is the boot without them, and the overrides after it. -/
theorem build_withoutOverrides {calls : List (Call prog)} {order : HashOrder} {c' : Container}
    (h : (appOf calls).build order = .ok c') :
    ∃ c, (appOf (withoutOverrides calls)).build order = .ok c ∧
      c' = provideAll (calls.filterMap Call.override) c := by
  obtain ⟨c₀, c₁, hf, hrun, hv, hm, rfl⟩ := (build_eq_ok (appOf calls)).mp h
  -- the other three kinds of calls are kept
  have hkept : ∀ {α : Type} {p : Call prog → Option α},
      (∀ call : Call prog, call.override.isNone = false → p call = none) →
        (withoutOverrides calls).filterMap p = calls.filterMap p := by
    intro α p hp
    unfold withoutOverrides
    rw [List.filterMap_filter]
    refine List.filterMap_congr fun call _ => ?_
    cases ho : call.override.isNone with
    | true => rfl
    | false => exact (hp call ho).symm
  have hseeds : (withoutOverrides calls).filterMap Call.seed = calls.filterMap Call.seed :=
    hkept fun call ho => by cases call <;> first | rfl | exact nomatch ho
  have hfactories : (withoutOverrides calls).filterMap Call.factory =
      calls.filterMap Call.factory :=
    hkept fun call ho => by cases call <;> first | rfl | exact nomatch ho
  have hmodules : (withoutOverrides calls).filterMap Call.root = calls.filterMap Call.root :=
    hkept fun call ho => by cases call <;> first | rfl | exact nomatch ho
  have hnone : (withoutOverrides calls).filterMap Call.override = [] := by
    refine List.filterMap_eq_nil_iff.mpr fun call hcall => ?_
    simpa using (List.mem_filter.mp hcall).2
  refine ⟨c₁, (build_eq_ok _).mpr ⟨c₀, c₁, ?_, ?_, ?_, ?_, ?_⟩, rfl⟩
  · simpa only [AppBuilder.queued, AppBuilder.container, appOf, hseeds, hfactories, hmodules]
      using hf
  · simpa only [appOf, hmodules] using hrun
  · simpa only [appOf, hmodules] using hv
  · simpa only [appOf, hmodules] using hm
  · simp only [appOf, hnone]
    rfl

/-- **When overrides win.** After every boot, for every sequence of calls: iff no overridden type is
listed as a request-scoped provider by a module of the tree, and the overrides leave alone what each
factory finds in the container they are applied to. -/
theorem overrides_win_iff (prog : Program) (order : HashOrder) (calls : List (Call prog))
    (c' : Container) (h : ((state calls).boot prog order).result = .ok c') :
    ∃ c, ((state (withoutOverrides calls)).boot prog order).result = .ok c ∧
      (OverridesWin (lastOverride calls) c c' ↔
        (∀ key, lastOverride calls key ≠ none →
          ¬ ScopedIn prog (calls.filterMap Call.root) key) ∧
        ∀ key p, c.scopedFactories key = some p →
          LeavesAlone (lastOverride calls) c p.fields) := by
  rw [boot_result] at h
  obtain ⟨c, hc, hfinal⟩ := build_withoutOverrides h
  refine ⟨c, (boot_result _ _).trans hc, ?_⟩
  have hget : ∀ key, c'.get key = (lastOverride calls key).or (c.get key) := by
    intro key
    rw [hfinal, provideAll_get]
    rfl
  have hfactories : c'.scopedFactories = c.scopedFactories := by
    rw [hfinal, scopedFactories_provideAll]
  have hscoped := scopedFactories_build h
  constructor
  · intro hwin
    have hnone : ∀ key, lastOverride calls key ≠ none →
        ¬ ScopedIn prog (calls.filterMap Call.root) key := by
      intro key ho hs
      obtain ⟨v, hv⟩ := Option.ne_none_iff_exists'.mp ho
      obtain ⟨p, hp⟩ := Option.ne_none_iff_exists'.mp ((hscoped key).mpr hs)
      -- the scope builds an instance or panics, and hands out the override in neither case
      have hscope := hwin.scope [] key v hv
      rw [RequestScope.resolve_after, resolve_of_factory hp] at hscope
      obtain ⟨fields, -, hi⟩ := map_eq_ok.mp hscope
      exact nomatch hi
    refine ⟨hnone, fun key p hp => ?_⟩
    have hp' : c'.scopedFactories key = some p := hfactories ▸ hp
    have hkey : lastOverride calls key = none := by
      by_contra ho
      exact hnone key ho ((hscoped key).mp (by simp [hp']))
    have hsame := hwin.othersInScope [] key hkey
    rw [RequestScope.resolve_after, RequestScope.resolve_after, resolve_of_factory hp,
      resolve_of_factory hp'] at hsame
    exact (resolveFields_eq_iff hget p).mp hsame
  · rintro ⟨hnone, halone⟩
    have hno : ∀ key v, lastOverride calls key = some v → c'.scopedFactories key = none := by
      intro key v hv
      by_contra hs
      exact hnone key (by simp [hv]) ((hscoped key).mp hs)
    have hothers : ∀ key, lastOverride calls key = none → c'.get key = c.get key := by
      intro key hkey
      rw [hget, hkey]
      exact Option.none_or
    refine ⟨?_, ?_, hothers, ?_⟩
    · intro key v hv
      rw [hget, hv]
      rfl
    · intro gets key v hv
      rw [RequestScope.resolve_after, resolve_of_no_factory (hno key v hv), hget, hv]
      rfl
    · intro gets key hkey
      rw [RequestScope.resolve_after, RequestScope.resolve_after]
      cases hp : c.scopedFactories key with
      | none =>
        rw [resolve_of_no_factory hp, resolve_of_no_factory (hfactories ▸ hp), hothers key hkey]
      | some p =>
        rw [resolve_of_factory hp, resolve_of_factory (hfactories ▸ hp)]
        exact (resolveFields_eq_iff hget p).mpr (halone key p hp)

end Overriding

/-- `VisitModule` with a `Clock`, a request-scoped `Visit` that injects it, and a `Mailer`. -/
def visitProgram : Program where
  modules := [⟨1, "VisitModule", [],
    [.concrete ⟨30, "Visit", [⟨"clock", 31, "Clock", false⟩], .requestScoped⟩,
      .concrete ⟨31, "Clock", [], .injectable⟩, .concrete ⟨32, "Mailer", [], .injectable⟩]⟩]
  resolvers := []
  distinct := by decide
  linked m hm id hid := by
    rw [List.mem_singleton.mp hm] at hid
    exact absurd hid List.not_mem_nil

/-- The root module, and an override of the type with the value 7. -/
def visitCalls (key : TypeId) : List (Call visitProgram) :=
  [.overrideValue key (.value 7), .module 1 (by decide)]

/-- A boot of these calls that returned `Ok`, with what the container and a scope resolve. -/
def bootedVisit (key asked : TypeId) : Option (Option AnyArc × Option (Option Instance)) :=
  (((state (visitCalls key)).boot visitProgram .newestFirst).result.toOption).map fun c =>
    (c.get asked, ((RequestScope.new c).get asked).1.toOption)

/-- `Visit` is not overridden, but the next request builds it with the frozen `Clock`. -/
example : (bootedVisit 31 30).map Prod.snd =
    some (some (some (.scoped ⟨30, "Visit", [⟨"clock", 31, "Clock", false⟩], .requestScoped⟩
      [(⟨"clock", 31, "Clock", false⟩, some (.value 7))]))) := by decide

/-- Only `Visit` is built for each request. -/
theorem visit_scoped {key : TypeId} (h : ScopedIn visitProgram [1] key) : key = 30 := by
  obtain ⟨m, hm, -, ⟨b, hb, p, rfl, hkind, htype⟩ | ⟨d, hd, -⟩⟩ := h
  · obtain rfl := List.mem_singleton.mp hm
    simp only [List.mem_cons, List.not_mem_nil, or_false, ProviderBinding.concrete.injEq] at hb
    rcases hb with rfl | rfl | rfl
    · exact htype.symm
    · cases hkind
    · cases hkind
  · obtain rfl := List.mem_singleton.mp hm
    exact absurd hd List.not_mem_nil

/-- A recording `Mailer` wins everywhere: no request builds one, and no `Visit` injects it. -/
theorem recordingMailer_wins :
    ∃ c c', ((state (visitCalls 32)).boot visitProgram .newestFirst).result = .ok c' ∧
      OverridesWin (lastOverride (visitCalls 32)) c c' := by
  cases hb : ((state (visitCalls 32)).boot visitProgram .newestFirst).result with
  | error e =>
    have hok : (bootedVisit 32 32).isSome = true := by decide
    simp [bootedVisit, hb, Except.toOption] at hok
  | ok c' =>
    obtain ⟨c, hc, hiff⟩ := overrides_win_iff visitProgram .newestFirst (visitCalls 32) c' hb
    have hother : ∀ key, key ≠ 32 → lastOverride (visitCalls 32) key = none := by
      intro key hkey
      simp [lastOverride, visitCalls, Call.override, Ne.symm hkey]
    have hplain : (((state (withoutOverrides (visitCalls 32))).boot visitProgram
        .newestFirst).result.toOption).map (fun c => (c.scopedFactories 30, c.contains 31)) =
          some (some ⟨30, "Visit", [⟨"clock", 31, "Clock", false⟩], .requestScoped⟩, true) := by
      decide
    simp only [hc, Except.toOption, Option.map_some, Option.some.injEq, Prod.mk.injEq] at hplain
    obtain ⟨hvisit, hclock⟩ := hplain
    refine ⟨c, c', rfl, hiff.mpr ⟨fun key ho hs => ho (hother key ?_), fun key p hp => ?_⟩⟩
    · rw [visit_scoped hs]
      decide
    · rw [boot_result] at hc
      have hkey : key = 30 :=
        visit_scoped ((scopedFactories_build hc key).mp (by simp [hp]))
      obtain rfl : p = ⟨30, "Visit", [⟨"clock", 31, "Clock", false⟩], .requestScoped⟩ :=
        Option.some.inj (by rw [← hp, hkey, hvisit])
      have hall : firstMissing c.contains [⟨"clock", 31, "Clock", false⟩] = none := by
        simp [firstMissing, hclock]
      unfold LeavesAlone
      rw [hall]
      simp only [List.mem_singleton, forall_eq]
      exact Or.inl (hother 31 (by decide))

/-- An overridden `Visit` is the override in the container; a request gets the real one. -/
theorem fakeVisit_loses :
    ∃ c', ((state (visitCalls 30)).boot visitProgram .newestFirst).result = .ok c' ∧
      lastOverride (visitCalls 30) 30 = some (.value 7) ∧ c'.get 30 = some (.value 7) ∧
      ((RequestScope.new c').get 30).1.toOption =
        some (some (.scoped ⟨30, "Visit", [⟨"clock", 31, "Clock", false⟩], .requestScoped⟩
          [(⟨"clock", 31, "Clock", false⟩, some (.built 31 31))])) ∧
      ∀ c, ¬ OverridesWin (lastOverride (visitCalls 30)) c c' := by
  have hrun : bootedVisit 30 30 = some (some (.value 7),
      some (some (.scoped ⟨30, "Visit", [⟨"clock", 31, "Clock", false⟩], .requestScoped⟩
        [(⟨"clock", 31, "Clock", false⟩, some (.built 31 31))]))) := by decide
  cases hb : ((state (visitCalls 30)).boot visitProgram .newestFirst).result with
  | error e => simp [bootedVisit, hb, Except.toOption] at hrun
  | ok c' =>
    simp only [bootedVisit, hb, Except.toOption, Option.map_some, Option.some.injEq,
      Prod.mk.injEq] at hrun
    refine ⟨c', rfl, rfl, hrun.1, hrun.2, fun c hwin => ?_⟩
    have hscope := hwin.scope [] 30 (.value 7) rfl
    have hreal := hrun.2
    simp only [RequestScope.after, List.foldl_nil] at hscope
    rw [hscope] at hreal
    cases hreal

end Nestrs.Core
