import Nestrs.Lib.Except
import Nestrs.Lib.Search
import Mathlib.Data.List.Nodup

/-!
# The module access contract

Model of `crates/nestrs-core/src/access.rs`. Every `#[module]` submits a `ModuleDescriptor`: its
bare-type imports and, for each provider, the key it registers under and the keys it injects. At
boot `validateAccessGraph` walks the import graph from the roots and rejects a provider whose
dependency lies outside its module's import closure, and `validateResolverMembership` rejects a
linked resolver that no reachable module lists.

The two `HashSet`s a validation iterates are lists here, and `HashOrder` is the order in which
the iteration meets their members: any one, since the source fixes none.

Results:
* `reachableLoop_stack`: the worklist of `reachable` runs empty on every import graph;
* `validateAccessGraph_eq_ok`, `validateResolverMembership_eq_ok`: when the boot is accepted;
* **`validation_exact`**: both validations fail exactly on the violations of the contract, and
  the error names one.
-/

namespace Nestrs.Core

open Nestrs.Lib

/-- The `TypeId` of a Rust type: a module, a provider, or the `Arc` of a trait object. -/
abbrev TypeId := Nat

/-- `ProviderDescriptor`: one entry of a module's `providers = [...]`. -/
structure ProviderDescriptor where
  name : String
  provides : TypeId
  injects : List TypeId
deriving DecidableEq, Repr

/-- `ModuleDescriptor`: one `#[module]` of the binary. -/
structure ModuleDescriptor where
  module : TypeId
  name : String
  imports : List TypeId
  providers : List ProviderDescriptor
deriving DecidableEq, Repr

/-- `ResolverDescriptor`: one `#[resolver]` of the binary. -/
structure ResolverDescriptor where
  resolver : TypeId
  name : String
deriving DecidableEq, Repr

/-- `AccessGraphError`. -/
structure AccessGraphError where
  module : String
  consumer : String
  dependency : String
  owner : String
deriving DecidableEq, Repr

/-- `ResolverMembershipError`. -/
structure ResolverMembershipError where
  resolver : String
deriving DecidableEq, Repr

/-- The order in which the members of a `HashSet` are iterated. -/
structure HashOrder where
  iter : List TypeId → List TypeId
  perm : ∀ l, (iter l).Perm l

/-- The order of insertion, newest first. -/
def HashOrder.newestFirst : HashOrder := ⟨id, fun _ => .refl _⟩

theorem HashOrder.mem_iter (order : HashOrder) {l : List TypeId} {x : TypeId} :
    x ∈ order.iter l ↔ x ∈ l := (order.perm l).mem_iff

section Validate

variable (descriptors : List ModuleDescriptor)

/-- `by_id`: the descriptor of a module; of two with one id, `collect` keeps the last. -/
def byId (id : TypeId) : Option ModuleDescriptor :=
  descriptors.reverse.find? fun d => d.module = id

/-- `provided_by`: label and owning module of a key; `or_insert` keeps the first. -/
def providedBy (key : TypeId) : Option (String × String) :=
  ((descriptors.flatMap fun d => d.providers.map fun p => (p.provides, p.name, d.name)).find?
    fun entry => entry.1 = key).map Prod.snd

/-- The imports pushed for a module; one without a descriptor ends its branch. -/
def importsOf (id : TypeId) : List TypeId :=
  match byId descriptors id with
  | some desc => desc.imports
  | none => []

/-- The `while` loop of `reachable`, run for one turn a root and one an import edge. -/
def reachableLoop (roots : List TypeId) : Search TypeId :=
  Search.run (importsOf descriptors)
    (roots.length + ((descriptors.map fun d => d.module).map fun id =>
      (importsOf descriptors id).length).sum)
    (Search.init roots)

/-- `reachable`. -/
def reachable (roots : List TypeId) : List TypeId := (reachableLoop descriptors roots).seen

/-- The keys a module's providers register under. -/
def providerKeys (id : TypeId) : List TypeId :=
  match byId descriptors id with
  | some desc => desc.providers.map ProviderDescriptor.provides
  | none => []

/-- The body of the innermost loop of `validate_access_graph`: one dependency of one provider. -/
def checkDependency (global : TypeId → Bool) (closureKeys : List TypeId) (desc : ModuleDescriptor)
    (p : ProviderDescriptor) (dep : TypeId) : Except AccessGraphError Unit :=
  if global dep || closureKeys.contains dep then .ok ()
  else match providedBy descriptors dep with
    | some (dependency, owner) =>
      .error { module := desc.name, consumer := p.name, dependency, owner }
    | none => .ok ()

/-- The body of the outer loop: one reachable module. -/
def checkModule (order : HashOrder) (global : TypeId → Bool) (id : TypeId) :
    Except AccessGraphError Unit :=
  match byId descriptors id with
  | none => .ok ()
  | some desc =>
    let closureKeys :=
      (order.iter (reachable descriptors [id])).flatMap (providerKeys descriptors)
    forM desc.providers fun p =>
      forM p.injects fun dep => checkDependency descriptors global closureKeys desc p dep

/-- `validate_access_graph`. -/
def validateAccessGraph (order : HashOrder) (roots : List TypeId) (global : TypeId → Bool) :
    Except AccessGraphError Unit :=
  forM (order.iter (reachable descriptors roots)) (checkModule descriptors order global)

/-- `validate_resolver_membership`. -/
def validateResolverMembership (order : HashOrder) (roots : List TypeId)
    (resolvers : List ResolverDescriptor) : Except ResolverMembershipError Unit :=
  let reachableKeys :=
    (order.iter (reachable descriptors roots)).flatMap (providerKeys descriptors)
  forM resolvers fun r =>
    if !reachableKeys.contains r.resolver then .error { resolver := r.name } else .ok ()

/-! ## The contract -/

/-- An import edge of the binary. -/
def Imports (a b : TypeId) : Prop := ∃ d ∈ descriptors, d.module = a ∧ b ∈ d.imports

/-- `b` is in the reflexive-transitive import closure of `a`. -/
abbrev InClosure : TypeId → TypeId → Prop := Relation.ReflTransGen (Imports descriptors)

/-- A root's import closure contains the module. -/
def ReachableFrom (roots : List TypeId) (id : TypeId) : Prop :=
  ∃ r ∈ roots, InClosure descriptors r id

/-- Some module of the import closure of `id` provides the key. -/
def ProvidedInClosure (id key : TypeId) : Prop :=
  ∃ n ∈ descriptors, InClosure descriptors id n.module ∧ ∃ q ∈ n.providers, q.provides = key

/-- The key is provided by `q`, listed in `n`. -/
structure ProvidedAt (n : ModuleDescriptor) (q : ProviderDescriptor) (key : TypeId) : Prop where
  linked : n ∈ descriptors
  listed : q ∈ n.providers
  provides : q.provides = key

/-- **A violation of the access contract**: a provider of a reachable module injects a key that
is not global, that no module of its import closure provides, and that the binary provides. -/
structure Violation (roots : List TypeId) (global : TypeId → Bool) (m : ModuleDescriptor)
    (p : ProviderDescriptor) (dep : TypeId) : Prop where
  linked : m ∈ descriptors
  reachable : ReachableFrom descriptors roots m.module
  listed : p ∈ m.providers
  injects : dep ∈ p.injects
  not_global : global dep = false
  not_imported : ¬ ProvidedInClosure descriptors m.module dep
  provided : ∃ n q, ProvidedAt descriptors n q dep

end Validate

/-! ## The search over imports -/

section Search

variable {descriptors : List ModuleDescriptor}

theorem mem_of_byId {id : TypeId} {d : ModuleDescriptor} (h : byId descriptors id = some d) :
    d ∈ descriptors ∧ d.module = id := by
  unfold byId at h
  exact ⟨List.mem_reverse.mp (List.mem_of_find?_eq_some h), by simpa using List.find?_some h⟩

/-- With distinct ids a module's descriptor is the one that carries its id. -/
theorem byId_eq_some (hd : (descriptors.map ModuleDescriptor.module).Nodup) {id : TypeId}
    {d : ModuleDescriptor} : byId descriptors id = some d ↔ d ∈ descriptors ∧ d.module = id := by
  refine ⟨mem_of_byId, fun ⟨hmem, hid⟩ => ?_⟩
  cases hb : byId descriptors id with
  | none =>
    unfold byId at hb
    rw [List.find?_eq_none] at hb
    exact absurd hid (by simpa using hb d (List.mem_reverse.mpr hmem))
  | some d' =>
    obtain ⟨hmem', hid'⟩ := mem_of_byId hb
    rw [List.inj_on_of_nodup_map hd hmem' hmem (hid'.trans hid.symm)]

theorem importsOf_or_nil (id : TypeId) :
    id ∈ descriptors.map (fun d => d.module) ∨ importsOf descriptors id = [] := by
  cases hb : byId descriptors id with
  | none =>
    unfold importsOf
    rw [hb]
    exact Or.inr rfl
  | some d =>
    obtain ⟨hmem, hid⟩ := mem_of_byId hb
    exact Or.inl (List.mem_map.mpr ⟨d, hmem, hid⟩)

/-- The worklist of `reachable` runs empty. -/
theorem reachableLoop_stack (descriptors : List ModuleDescriptor) (roots : List TypeId) :
    (reachableLoop descriptors roots).stack = [] := by
  unfold reachableLoop
  exact Search.run_stack importsOf_or_nil _ _ (Search.work_init _ _).le

theorem edge_iff_imports (hd : (descriptors.map ModuleDescriptor.module).Nodup) (a b : TypeId) :
    Edge (importsOf descriptors) a b ↔ Imports descriptors a b := by
  unfold Edge Imports importsOf
  cases hb : byId descriptors a with
  | none =>
    constructor
    · intro h
      exact absurd h List.not_mem_nil
    · rintro ⟨d, hmem, hid, -⟩
      rw [(byId_eq_some hd).mpr ⟨hmem, hid⟩] at hb
      exact absurd hb (by simp)
  | some d =>
    obtain ⟨hmem, hid⟩ := mem_of_byId hb
    constructor
    · intro h
      exact ⟨d, hmem, hid, h⟩
    · rintro ⟨d', hmem', hid', h⟩
      rw [List.inj_on_of_nodup_map hd hmem hmem' (hid.trans hid'.symm)]
      exact h

/-- `reachable` collects the import closures of its roots. -/
theorem mem_reachable (hd : (descriptors.map ModuleDescriptor.module).Nodup)
    {roots : List TypeId} {id : TypeId} :
    id ∈ reachable descriptors roots ↔ ReachableFrom descriptors roots id := by
  have hrel : Edge (importsOf descriptors) = Imports descriptors := by
    funext a b
    exact propext (edge_iff_imports hd a b)
  unfold reachable reachableLoop ReachableFrom InClosure
  rw [Search.mem_run_seen_iff (reachableLoop_stack descriptors roots)]
  unfold Reaches
  rw [hrel]

theorem mem_providerKeys (hd : (descriptors.map ModuleDescriptor.module).Nodup)
    {id key : TypeId} :
    key ∈ providerKeys descriptors id ↔
      ∃ n ∈ descriptors, n.module = id ∧ ∃ q ∈ n.providers, q.provides = key := by
  unfold providerKeys
  constructor
  · intro h
    cases hb : byId descriptors id with
    | none =>
      rw [hb] at h
      exact absurd h List.not_mem_nil
    | some d =>
      rw [hb] at h
      obtain ⟨q, hq, hk⟩ := List.mem_map.mp h
      obtain ⟨hmem, hid⟩ := mem_of_byId hb
      exact ⟨d, hmem, hid, q, hq, hk⟩
  · rintro ⟨n, hn, hid, q, hq, hk⟩
    rw [(byId_eq_some hd).mpr ⟨hn, hid⟩]
    exact List.mem_map.mpr ⟨q, hq, hk⟩

/-- The keys gathered over a set of reachable modules. -/
theorem mem_reachable_keys (hd : (descriptors.map ModuleDescriptor.module).Nodup)
    (order : HashOrder) {roots : List TypeId} {key : TypeId} :
    key ∈ (order.iter (reachable descriptors roots)).flatMap (providerKeys descriptors) ↔
      ∃ n ∈ descriptors, ReachableFrom descriptors roots n.module ∧
        ∃ q ∈ n.providers, q.provides = key := by
  rw [List.mem_flatMap]
  constructor
  · rintro ⟨id, hid, hk⟩
    rw [order.mem_iter, mem_reachable hd] at hid
    obtain ⟨n, hn, rfl, hq⟩ := (mem_providerKeys hd).mp hk
    exact ⟨n, hn, hid, hq⟩
  · rintro ⟨n, hn, hr, hq⟩
    refine ⟨n.module, ?_, (mem_providerKeys hd).mpr ⟨n, hn, rfl, hq⟩⟩
    rw [order.mem_iter, mem_reachable hd]
    exact hr

theorem reachableFrom_singleton {a b : TypeId} :
    ReachableFrom descriptors [a] b ↔ InClosure descriptors a b := by
  unfold ReachableFrom
  simp

/-! ## One dependency -/

theorem providedBy_eq_some {key : TypeId} {label owner : String}
    (h : providedBy descriptors key = some (label, owner)) :
    ∃ n q, ProvidedAt descriptors n q key ∧ label = q.name ∧ owner = n.name := by
  unfold providedBy at h
  obtain ⟨⟨k, l, o⟩, hf, hlo⟩ := Option.map_eq_some_iff.mp h
  have hk : k = key := by simpa using List.find?_some hf
  obtain ⟨n, hn, hq⟩ := List.mem_flatMap.mp (List.mem_of_find?_eq_some hf)
  obtain ⟨q, hq, heq⟩ := List.mem_map.mp hq
  simp only [Prod.mk.injEq] at heq hlo
  exact ⟨n, q, ⟨hn, hq, heq.1.trans hk⟩, hlo.1.symm.trans heq.2.1.symm,
    hlo.2.symm.trans heq.2.2.symm⟩

theorem providedBy_eq_none {key : TypeId} :
    providedBy descriptors key = none ↔ ¬ ∃ n q, ProvidedAt descriptors n q key := by
  unfold providedBy
  rw [Option.map_eq_none_iff, List.find?_eq_none]
  constructor
  · rintro h ⟨n, q, hn, hq, hk⟩
    have := h (q.provides, q.name, n.name)
      (List.mem_flatMap.mpr ⟨n, hn, List.mem_map.mpr ⟨q, hq, rfl⟩⟩)
    simp [hk] at this
  · rintro h ⟨k, l, o⟩ hmem hk
    obtain ⟨n, hn, hq⟩ := List.mem_flatMap.mp hmem
    obtain ⟨q, hq, heq⟩ := List.mem_map.mp hq
    simp only [Prod.mk.injEq] at heq
    exact h ⟨n, q, hn, hq, heq.1.trans (of_decide_eq_true hk)⟩

theorem checkDependency_eq_ok {global : TypeId → Bool} {closureKeys : List TypeId}
    {desc : ModuleDescriptor} {p : ProviderDescriptor} {dep : TypeId} :
    checkDependency descriptors global closureKeys desc p dep = .ok () ↔
      (global dep = false → dep ∉ closureKeys → ¬ ∃ n q, ProvidedAt descriptors n q dep) := by
  unfold checkDependency
  by_cases hr : (global dep || closureKeys.contains dep) = true
  · rw [if_pos hr]
    refine ⟨fun _ hg hk => ?_, fun _ => rfl⟩
    rw [Bool.or_eq_true, hg, List.contains_iff_mem] at hr
    exact absurd (hr.resolve_left Bool.false_ne_true) hk
  · rw [if_neg hr]
    rw [Bool.or_eq_true, not_or, Bool.not_eq_true, List.contains_iff_mem] at hr
    rw [← providedBy_eq_none]
    cases hp : providedBy descriptors dep with
    | none => exact ⟨fun _ _ _ => rfl, fun _ => rfl⟩
    | some lo =>
      constructor
      · intro h
        exact nomatch h
      · intro h
        exact absurd (h hr.1 hr.2) (by simp)

theorem checkDependency_eq_error {global : TypeId → Bool} {closureKeys : List TypeId}
    {desc : ModuleDescriptor} {p : ProviderDescriptor} {dep : TypeId} {e : AccessGraphError}
    (h : checkDependency descriptors global closureKeys desc p dep = .error e) :
    global dep = false ∧ dep ∉ closureKeys ∧ e.module = desc.name ∧ e.consumer = p.name ∧
      ∃ n q, ProvidedAt descriptors n q dep ∧ e.dependency = q.name ∧ e.owner = n.name := by
  unfold checkDependency at h
  by_cases hr : (global dep || closureKeys.contains dep) = true
  · rw [if_pos hr] at h
    exact nomatch h
  · rw [if_neg hr] at h
    rw [Bool.or_eq_true, not_or, Bool.not_eq_true, List.contains_iff_mem] at hr
    cases hp : providedBy descriptors dep with
    | none =>
      rw [hp] at h
      exact nomatch h
    | some lo =>
      rw [hp] at h
      cases h
      obtain ⟨n, q, hat, hl, ho⟩ := providedBy_eq_some hp
      exact ⟨hr.1, hr.2, rfl, rfl, n, q, hat, hl, ho⟩

end Search

/-! ## The validations -/

section Exact

variable {descriptors : List ModuleDescriptor} {order : HashOrder} {roots : List TypeId}
  {global : TypeId → Bool}

theorem checkModule_eq_error (hd : (descriptors.map ModuleDescriptor.module).Nodup)
    {id : TypeId} (hid : ReachableFrom descriptors roots id) {e : AccessGraphError}
    (h : checkModule descriptors order global id = .error e) :
    ∃ m p dep, Violation descriptors roots global m p dep ∧ e.module = m.name ∧
      e.consumer = p.name ∧
      ∃ n q, ProvidedAt descriptors n q dep ∧ e.dependency = q.name ∧ e.owner = n.name := by
  unfold checkModule at h
  cases hb : byId descriptors id with
  | none =>
    rw [hb] at h
    exact nomatch h
  | some m =>
    rw [hb] at h
    obtain ⟨hm, rfl⟩ := mem_of_byId hb
    obtain ⟨p, hp, h⟩ := exists_of_forM_eq_error h
    obtain ⟨dep, hdep, h⟩ := exists_of_forM_eq_error h
    obtain ⟨hg, hk, hem, hec, n, q, hat, hed, heo⟩ := checkDependency_eq_error h
    rw [mem_reachable_keys hd] at hk
    simp only [reachableFrom_singleton] at hk
    exact ⟨m, p, dep, ⟨hm, hid, hp, hdep, hg, hk, n, q, hat⟩, hem, hec, n, q, hat, hed, heo⟩

/-- The access check accepts exactly the binaries without a violation. -/
theorem validateAccessGraph_eq_ok (hd : (descriptors.map ModuleDescriptor.module).Nodup) :
    validateAccessGraph descriptors order roots global = .ok () ↔
      ∀ m p dep, ¬ Violation descriptors roots global m p dep := by
  unfold validateAccessGraph
  rw [forM_eq_ok]
  constructor
  · intro h m p dep v
    have hm := h m.module (order.mem_iter.mpr ((mem_reachable hd).mpr v.reachable))
    unfold checkModule at hm
    rw [(byId_eq_some hd).mpr ⟨v.linked, rfl⟩] at hm
    have hdep := checkDependency_eq_ok.mp
      (forM_eq_ok.mp (forM_eq_ok.mp hm p v.listed) dep v.injects)
    refine hdep v.not_global (fun hk => v.not_imported ?_) v.provided
    rw [mem_reachable_keys hd] at hk
    simp only [reachableFrom_singleton] at hk
    exact hk
  · intro h id hid
    rw [order.mem_iter, mem_reachable hd] at hid
    cases hc : checkModule descriptors order global id with
    | ok u => rfl
    | error e =>
      obtain ⟨m, p, dep, v, -⟩ := checkModule_eq_error hd hid hc
      exact absurd v (h m p dep)

theorem validateAccessGraph_eq_error (hd : (descriptors.map ModuleDescriptor.module).Nodup)
    {e : AccessGraphError} (h : validateAccessGraph descriptors order roots global = .error e) :
    ∃ m p dep, Violation descriptors roots global m p dep ∧ e.module = m.name ∧
      e.consumer = p.name ∧
      ∃ n q, ProvidedAt descriptors n q dep ∧ e.dependency = q.name ∧ e.owner = n.name := by
  obtain ⟨id, hid, h⟩ := exists_of_forM_eq_error h
  rw [order.mem_iter, mem_reachable hd] at hid
  exact checkModule_eq_error hd hid h

/-- Every resolver is listed by a reachable module. -/
theorem validateResolverMembership_eq_ok
    (hd : (descriptors.map ModuleDescriptor.module).Nodup) {resolvers : List ResolverDescriptor} :
    validateResolverMembership descriptors order roots resolvers = .ok () ↔
      ∀ r ∈ resolvers, ∃ m ∈ descriptors, ReachableFrom descriptors roots m.module ∧
        ∃ q ∈ m.providers, q.provides = r.resolver := by
  unfold validateResolverMembership
  rw [forM_eq_ok]
  refine forall₂_congr fun r _ => ?_
  rw [← mem_reachable_keys hd order, ← List.contains_iff_mem]
  cases List.contains ((order.iter (reachable descriptors roots)).flatMap
    (providerKeys descriptors)) r.resolver with
  | true => simp
  | false => simp

/-- **The validations are exact.** Over descriptors with distinct ids, whatever the import graph:
the access check fails iff there is a violation, and its error names the module and the provider
of one and a provider/module pair that provides the dependency; the membership check fails iff
some resolver is listed by no reachable module; and the worklist of every search runs empty. -/
theorem validation_exact (descriptors : List ModuleDescriptor) (order : HashOrder)
    (hd : (descriptors.map ModuleDescriptor.module).Nodup) (roots : List TypeId)
    (global : TypeId → Bool) (resolvers : List ResolverDescriptor) :
    ((∃ e, validateAccessGraph descriptors order roots global = .error e) ↔
        ∃ m p dep, Violation descriptors roots global m p dep) ∧
      (∀ e, validateAccessGraph descriptors order roots global = .error e →
        ∃ m p dep, Violation descriptors roots global m p dep ∧ e.module = m.name ∧
          e.consumer = p.name ∧
          ∃ n q, ProvidedAt descriptors n q dep ∧ e.dependency = q.name ∧ e.owner = n.name) ∧
      ((∃ e, validateResolverMembership descriptors order roots resolvers = .error e) ↔
        ∃ r ∈ resolvers, ¬ ∃ m ∈ descriptors, ReachableFrom descriptors roots m.module ∧
          ∃ q ∈ m.providers, q.provides = r.resolver) ∧
      ∀ starts : List TypeId, (reachableLoop descriptors starts).stack = [] := by
  refine ⟨⟨?_, ?_⟩, fun e => validateAccessGraph_eq_error hd, ⟨?_, ?_⟩,
    reachableLoop_stack descriptors⟩
  · rintro ⟨e, he⟩
    obtain ⟨m, p, dep, v, -⟩ := validateAccessGraph_eq_error hd he
    exact ⟨m, p, dep, v⟩
  · rintro ⟨m, p, dep, v⟩
    cases hv : validateAccessGraph descriptors order roots global with
    | ok u => exact absurd v ((validateAccessGraph_eq_ok hd).mp hv m p dep)
    | error e => exact ⟨e, rfl⟩
  · rintro ⟨e, he⟩
    by_contra hno
    rw [(validateResolverMembership_eq_ok hd).mpr (by simpa using hno)] at he
    exact nomatch he
  · rintro ⟨r, hr, hno⟩
    cases hv : validateResolverMembership descriptors order roots resolvers with
    | ok u => exact absurd ((validateResolverMembership_eq_ok hd).mp hv r hr) hno
    | error e => exact ⟨e, rfl⟩

/-- `BillingModule` uses `AuditModule`'s provider without importing it; both are roots. -/
def billingBinary : List ModuleDescriptor :=
  [{ module := 1, name := "BillingModule", imports := [1, 3],
      providers := [{ name := "Invoices", provides := 10, injects := [20] }] },
    { module := 2, name := "AuditModule", imports := [1],
      providers := [{ name := "AuditLog", provides := 20, injects := [] }] }]

theorem billingBinary_violates :
    ∃ m p dep, Violation billingBinary [2] (fun _ => false) m p dep :=
  (validation_exact billingBinary .newestFirst (by decide) [2] (fun _ => false) []).1.mp
    ⟨⟨"BillingModule", "Invoices", "AuditLog", "AuditModule"⟩, by decide⟩

end Exact

end Nestrs.Core
