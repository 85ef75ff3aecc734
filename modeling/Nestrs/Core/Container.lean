import Nestrs.Core.Access

/-!
# Providers, bindings and the container

Model of `crates/nestrs-core/src/container.rs` and `discoverable.rs`, of the constructor
`build_injectable_body` emits (`crates/nestrs-codegen/src/inject.rs`), and of the
`Discoverable::register` each decorator macro emits:

* `#[injectable]` builds the value from a snapshot and provides it;
* `#[interceptor]` builds it from a snapshot and attaches it as metadata, providing nothing;
* `#[injectable(scope = request)]` stores a factory;
* `#[routes]`, `#[messages]`, `#[resolver]`, `#[cron_job]`, `#[processor]`, `#[mcp]` and
  `#[on_event]` attach metadata and are built later (a namespaced gateway also provides its
  `WsServer<Ns>`).

The first two kinds are built eagerly and report their `#[inject]` keys as `dependencies`; the
others report none. A trait-object binding `P as dyn T` is lowered by `#[module]` itself: whatever
`P`'s kind, it calls `P::from_container` on the snapshot and provides the result.

A container's values are `AnyArc`s by origin. Its `log` is a ghost: the bindings registered so
far, each with the fields it resolved and what it found. Metadata is left out.

Results:
* **`register_eq`**: registering a binding fails iff one of the required fields it resolves is
  missing, and otherwise has one effect, `after`.
-/

namespace Nestrs.Core

/-- One `#[inject]` field: `Arc<T>`, or `Option<Arc<T>>` when optional. -/
structure InjectField where
  name : String
  key : TypeId
  label : String
  optional : Bool
deriving DecidableEq, Repr

/-- The decorator of a provider type. `layers` are the guards, filters and interceptors bound by
attribute, `server` the `WsServer<Ns>` a namespaced gateway provides. -/
inductive Kind where
  | injectable
  | requestScoped
  | interceptor
  | controller (layers : List TypeId)
  | gateway (layers : List TypeId) (server : Option TypeId)
  | resolver (layers : List TypeId)
  | cronJob
  | processor
  | mcp
  | onEvent
deriving DecidableEq, Repr

/-- A decorated type. -/
structure Provider where
  type : TypeId
  name : String
  fields : List InjectField
  kind : Kind
deriving DecidableEq, Repr

namespace Provider

/-- `dep_keys` of `build_injectable_body`. -/
def depKeys (p : Provider) : List TypeId :=
  (p.fields.filter fun f => !f.optional).map InjectField.key

/-- `dep_names`, in the order of `depKeys`. -/
def depNames (p : Provider) : List String :=
  (p.fields.filter fun f => !f.optional).map InjectField.label

/-- `opt_keys`. -/
def optKeys (p : Provider) : List TypeId :=
  (p.fields.filter fun f => f.optional).map InjectField.key

/-- Built when it is registered (`#[injectable]`, `#[interceptor]`). -/
def eager (p : Provider) : Bool :=
  match p.kind with
  | .injectable | .interceptor => true
  | _ => false

/-- The layers bound by attribute. -/
def layers (p : Provider) : List TypeId :=
  match p.kind with
  | .controller layers | .gateway layers _ | .resolver layers => layers
  | _ => []

/-- `Discoverable::dependencies`. -/
def dependencies (p : Provider) : List TypeId := if p.eager then p.depKeys else []

/-- `Discoverable::dependency_names`. -/
def dependencyNames (p : Provider) : List String := if p.eager then p.depNames else []

/-- `Discoverable::optional_dependencies`. -/
def optionalDependencies (p : Provider) : List TypeId := if p.eager then p.optKeys else []

/-- `Discoverable::injected`. -/
def injected (p : Provider) : List TypeId := p.depKeys ++ p.layers

end Provider

/-- One entry of `providers = [...]`: a type, or a type bound as a trait object. -/
inductive ProviderBinding where
  | concrete (provider : Provider)
  | dyn (provider : Provider) (traitName : String) (traitKey : TypeId)
deriving DecidableEq, Repr

namespace ProviderBinding

def provider : ProviderBinding → Provider
  | concrete p => p
  | dyn p _ _ => p

/-- `provided_key`: the key the binding is listed under. -/
def providedKey : ProviderBinding → TypeId
  | concrete p => p.type
  | dyn _ _ traitKey => traitKey

/-- The `ProviderDescriptor` `#[module]` submits. -/
def descriptor (b : ProviderBinding) : ProviderDescriptor where
  name := match b with
    | concrete p => p.name
    | dyn _ traitName _ => "dyn " ++ traitName
  provides := b.providedKey
  injects := b.provider.injected

/-- The keys registering the binding puts into the container. -/
def adds : ProviderBinding → List TypeId
  | concrete p => match p.kind with
    | .injectable => [p.type]
    | .gateway _ (some server) => [server]
    | _ => []
  | dyn _ _ traitKey => [traitKey]

/-- The fields registering the binding resolves. -/
def reads : ProviderBinding → List InjectField
  | concrete p => if p.eager then p.fields else []
  | dyn p _ _ => p.fields

end ProviderBinding

/-! ## The container -/

/-- `Arc<dyn Any>` by origin: a value made outside the module tree (a seed, a factory output, an
override), or the instance registered under `key` by a provider of type `type`. -/
inductive AnyArc where
  | value (tag : Nat)
  | built (key type : TypeId)
deriving DecidableEq, Repr

/-- A registered binding and what each resolved field found. -/
structure Built where
  binding : ProviderBinding
  fields : List (InjectField × Option AnyArc)
deriving DecidableEq, Repr

/-- `Container`, which is also what a builder's `snapshot` shows. -/
structure Container where
  providers : TypeId → Option AnyArc
  scopedFactories : TypeId → Option Provider
  log : List Built

/-- Why the register phase panicked. `overflow` and `spin` stand for a recursion and a loop that
never end. -/
inductive Panic where
  | expect (message : String)
  | cannotRegister (module : String) (unprovided : List String)
  | dependencyCycle (module : String) (cyclic : List String)
  | overflow
  | spin
deriving DecidableEq, Repr

/-- A panic, with the log it left. -/
structure Stop where
  panic : Panic
  log : List Built

namespace Container

/-- `Container::default`. -/
def empty : Container := ⟨fun _ => none, fun _ => none, []⟩

/-- `Container::get` and `Container::get_dyn`. -/
def get (c : Container) (key : TypeId) : Option AnyArc := c.providers key

/-- `ContainerBuilder::contains`. -/
def contains (c : Container) (key : TypeId) : Bool := (c.providers key).isSome

/-- `ContainerBuilder::provide` and `provide_dyn`: the last value of a key wins. -/
def provide (c : Container) (key : TypeId) (value : AnyArc) : Container :=
  { c with providers := fun k => if k = key then some value else c.providers k }

/-- `ContainerBuilder::provide_scoped`. -/
def provideScoped (c : Container) (p : Provider) : Container :=
  { c with scopedFactories := fun k => if k = p.type then some p else c.scopedFactories k }

/-- The ghost entry of a registration. -/
def record (c : Container) (entry : Built) : Container := { c with log := c.log ++ [entry] }

end Container

/-- The field initialisers of `from_container`, in order: `get()`, with `expect` unless the field
is optional. -/
def resolveFields (name : String) (c : Container) :
    List InjectField → Except Panic (List (InjectField × Option AnyArc))
  | [] => .ok []
  | f :: fs =>
    match c.get f.key with
    | some value => do .ok ((f, some value) :: (← resolveFields name c fs))
    | none =>
      if f.optional then do .ok ((f, none) :: (← resolveFields name c fs))
      else .error
        (.expect (name ++ "." ++ f.name ++ ": no provider registered for this dependency"))

/-- `from_container`. -/
def Provider.fromContainer (p : Provider) (c : Container) :
    Except Stop (List (InjectField × Option AnyArc)) :=
  match resolveFields p.name c p.fields with
  | .ok fields => .ok fields
  | .error panic => .error ⟨panic, c.log⟩

/-- `Discoverable::register`, by decorator. -/
def Provider.register (p : Provider) (c : Container) : Except Stop Container :=
  match p.kind with
  | .injectable => do
    let fields ← p.fromContainer c
    .ok ((c.provide p.type (.built p.type p.type)).record ⟨.concrete p, fields⟩)
  | .interceptor => do
    let fields ← p.fromContainer c
    .ok (c.record ⟨.concrete p, fields⟩)
  | .requestScoped => .ok ((c.provideScoped p).record ⟨.concrete p, []⟩)
  | .gateway _ (some server) =>
    .ok ((c.provide server (.built server p.type)).record ⟨.concrete p, []⟩)
  | _ => .ok (c.record ⟨.concrete p, []⟩)

/-- `register_action` of `#[module]`: `Discoverable::register`, or the trait-object lowering. -/
def ProviderBinding.register (b : ProviderBinding) (c : Container) : Except Stop Container :=
  match b with
  | .concrete p => p.register c
  | .dyn p traitName traitKey => do
    let fields ← p.fromContainer c
    .ok ((c.provide traitKey (.built traitKey p.type)).record ⟨.dyn p traitName traitKey, fields⟩)

/-! ## The effect of a registration -/

namespace Container

/-- Every required field the binding resolves is there. -/
def Resolves (c : Container) (b : ProviderBinding) : Prop :=
  ∀ f ∈ b.reads, f.optional = false → c.contains f.key = true

instance (c : Container) (b : ProviderBinding) : Decidable (c.Resolves b) :=
  inferInstanceAs (Decidable (∀ f ∈ b.reads, f.optional = false → c.contains f.key = true))

/-- The container after the binding was registered. -/
def after (c : Container) (b : ProviderBinding) : Container where
  providers k := if k ∈ b.adds then some (.built k b.provider.type) else c.providers k
  scopedFactories k := match b with
    | .concrete p =>
      if p.kind = .requestScoped ∧ k = p.type then some p else c.scopedFactories k
    | .dyn _ _ _ => c.scopedFactories k
  log := c.log ++ [⟨b, b.reads.map fun f => (f, c.get f.key)⟩]

@[simp] theorem contains_after (c : Container) (b : ProviderBinding) (k : TypeId) :
    (c.after b).contains k = true ↔ c.contains k = true ∨ k ∈ b.adds := by
  unfold contains after
  by_cases hk : k ∈ b.adds
  · simp [hk]
  · simp [hk]

theorem get_eq_none {c : Container} {k : TypeId} : c.get k = none ↔ c.contains k = false := by
  unfold get contains
  cases c.providers k <;> simp

end Container

theorem resolveFields_ok {name : String} {c : Container} {fs : List InjectField}
    (h : ∀ f ∈ fs, f.optional = false → c.contains f.key = true) :
    resolveFields name c fs = .ok (fs.map fun f => (f, c.get f.key)) := by
  induction fs with
  | nil => rfl
  | cons f fs ih =>
    have hfs := ih fun g hg => h g (List.mem_cons_of_mem f hg)
    unfold resolveFields
    cases hget : c.get f.key with
    | some value => simp [hfs, hget, bind, Except.bind]
    | none =>
      have hopt : f.optional = true := by
        by_contra hno
        have hc := h f List.mem_cons_self (by simpa using hno)
        rw [Container.get_eq_none.mp hget] at hc
        exact absurd hc Bool.false_ne_true
      simp [hfs, hget, hopt, bind, Except.bind]

theorem resolveFields_error {name : String} {c : Container} {fs : List InjectField}
    (h : ¬ ∀ f ∈ fs, f.optional = false → c.contains f.key = true) :
    ∃ message, resolveFields name c fs = .error (.expect message) := by
  induction fs with
  | nil => exact absurd (fun f hf => absurd hf List.not_mem_nil) h
  | cons f fs ih =>
    unfold resolveFields
    cases hget : c.get f.key with
    | some value =>
      have hf : c.contains f.key = true := by
        unfold Container.get at hget
        simp [Container.contains, hget]
      obtain ⟨message, hm⟩ := ih fun hall =>
        h (List.forall_mem_cons.mpr ⟨fun _ => hf, hall⟩)
      exact ⟨message, by simp [hm, bind, Except.bind]⟩
    | none =>
      by_cases hopt : f.optional = true
      · obtain ⟨message, hm⟩ := ih fun hall =>
          h (List.forall_mem_cons.mpr ⟨fun hno => absurd hopt (by simp [hno]), hall⟩)
        exact ⟨message, by simp [hm, hopt, bind, Except.bind]⟩
      · exact ⟨_, by rw [if_neg hopt]⟩

theorem fromContainer_ok {p : Provider} {c : Container}
    (h : ∀ f ∈ p.fields, f.optional = false → c.contains f.key = true) :
    p.fromContainer c = .ok (p.fields.map fun f => (f, c.get f.key)) := by
  unfold Provider.fromContainer
  rw [resolveFields_ok h]

theorem fromContainer_error {p : Provider} {c : Container}
    (h : ¬ ∀ f ∈ p.fields, f.optional = false → c.contains f.key = true) :
    ∃ message, p.fromContainer c = .error ⟨.expect message, c.log⟩ := by
  unfold Provider.fromContainer
  obtain ⟨message, hm⟩ : ∃ message, resolveFields p.name c p.fields = .error (.expect message) :=
    resolveFields_error h
  exact ⟨message, by rw [hm]⟩

theorem provide_one {c : Container} {key type : TypeId} :
    (fun k => if k = key then some (AnyArc.built key type) else c.providers k) =
      fun k => if k ∈ [key] then some (AnyArc.built k type) else c.providers k := by
  funext k
  by_cases hk : k = key
  · simp [hk]
  · simp [hk]

/-- A provider registered as itself: eager kinds resolve their fields, the others none. -/
theorem Provider.register_eq (p : Provider) (c : Container) :
    (c.Resolves (.concrete p) → p.register c = .ok (c.after (.concrete p))) ∧
      (¬ c.Resolves (.concrete p) →
        ∃ message, p.register c = .error ⟨.expect message, c.log⟩) := by
  obtain ⟨type, name, fields, kind⟩ := p
  -- a kind that is not eager reads nothing, so it always resolves
  have hlazy : Provider.eager ⟨type, name, fields, kind⟩ = false →
      c.Resolves (.concrete ⟨type, name, fields, kind⟩) := by
    intro he f hf
    simp [ProviderBinding.reads, he] at hf
  cases kind with
  | injectable =>
    refine ⟨fun h => ?_, fun h => ?_⟩
    · have hf := fromContainer_ok (p := ⟨type, name, fields, .injectable⟩) h
      simp [register, hf, bind, Except.bind, Container.provide, Container.record,
        Container.after, ProviderBinding.adds, ProviderBinding.reads, ProviderBinding.provider,
        Provider.eager, provide_one]
    · obtain ⟨message, hm⟩ := fromContainer_error (p := ⟨type, name, fields, .injectable⟩) h
      exact ⟨message, by simp [register, hm, bind, Except.bind]⟩
  | interceptor =>
    refine ⟨fun h => ?_, fun h => ?_⟩
    · have hf := fromContainer_ok (p := ⟨type, name, fields, .interceptor⟩) h
      simp [register, hf, bind, Except.bind, Container.record, Container.after,
        ProviderBinding.adds, ProviderBinding.reads, Provider.eager]
    · obtain ⟨message, hm⟩ := fromContainer_error (p := ⟨type, name, fields, .interceptor⟩) h
      exact ⟨message, by simp [register, hm, bind, Except.bind]⟩
  | requestScoped =>
    refine ⟨fun _ => ?_, fun h => absurd (hlazy rfl) h⟩
    simp [register, Container.provideScoped, Container.record, Container.after,
      ProviderBinding.adds, ProviderBinding.reads, Provider.eager]
  | gateway layers server =>
    refine ⟨fun _ => ?_, fun h => absurd (hlazy rfl) h⟩
    cases server with
    | none =>
      simp [register, Container.record, Container.after, ProviderBinding.adds,
        ProviderBinding.reads, Provider.eager]
    | some server =>
      simp [register, Container.provide, Container.record, Container.after,
        ProviderBinding.adds, ProviderBinding.reads, ProviderBinding.provider, Provider.eager,
        provide_one]
  | controller layers | resolver layers | cronJob | processor | mcp | onEvent =>
    refine ⟨fun _ => ?_, fun h => absurd (hlazy rfl) h⟩
    simp [register, Container.record, Container.after, ProviderBinding.adds,
      ProviderBinding.reads, Provider.eager]

/-- **What registering a binding does.** It fails iff a required field it resolves is missing, and
otherwise adds the binding's keys and its entry in the log. -/
theorem register_eq (b : ProviderBinding) (c : Container) :
    (c.Resolves b → b.register c = .ok (c.after b)) ∧
      (¬ c.Resolves b → ∃ message, b.register c = .error ⟨.expect message, c.log⟩) := by
  cases b with
  | concrete p => exact p.register_eq c
  | dyn p traitName traitKey =>
    refine ⟨fun h => ?_, fun h => ?_⟩
    · simp [ProviderBinding.register, fromContainer_ok h, bind, Except.bind, Container.provide,
        Container.record, Container.after, ProviderBinding.adds, ProviderBinding.reads,
        ProviderBinding.provider, provide_one]
    · obtain ⟨message, hm⟩ := fromContainer_error h
      exact ⟨message, by simp [ProviderBinding.register, hm, bind, Except.bind]⟩

end Nestrs.Core
