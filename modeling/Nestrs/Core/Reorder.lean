import Nestrs.Core.App

/-!
# Reordering a program

Two programs that differ only in the order in which their modules list imports and providers. The
modules a root reaches, and the access contract over them, do not depend on these orders; the
schedule of the register phase does.

Results:
* `reachable_reorders`, `inClosure_reorders`, `validations_reorders`: what does not depend on it;
* `Program.reorder`: the program in which each module is listed in a chosen order.
-/

namespace Nestrs.Core

open Nestrs.Lib

/-- The same module, with its imports and its providers listed in another order. -/
structure ModuleDecl.Reorders (m m' : ModuleDecl) : Prop where
  id : m'.id = m.id
  name : m'.name = m.name
  imports : m'.imports.Perm m.imports
  providers : m'.providers.Perm m.providers

/-- The same program, up to the order of its imports and providers lists. -/
structure Program.Reorders (prog prog' : Program) : Prop where
  modules : List.Forall₂ ModuleDecl.Reorders prog.modules prog'.modules
  resolvers : prog'.resolvers = prog.resolvers

section Reorders

variable {prog prog' : Program}

theorem find_reorders {l l' : List ModuleDecl} (h : List.Forall₂ ModuleDecl.Reorders l l')
    (id : TypeId) :
    (l.find? (fun m => m.id = id) = none ∧ l'.find? (fun m => m.id = id) = none) ∨
      ∃ m m', l.find? (fun m => m.id = id) = some m ∧
        l'.find? (fun m => m.id = id) = some m' ∧ m.Reorders m' := by
  induction h with
  | nil => exact Or.inl ⟨rfl, rfl⟩
  | cons hm hl ih =>
    rename_i m m' l l'
    by_cases hid : m.id = id
    · refine Or.inr ⟨m, m', ?_, ?_, hm⟩
      · simp [hid]
      · simp [hm.id, hid]
    · simpa [hm.id, hid] using ih

theorem importsOf_reorders (h : prog.Reorders prog') (id : TypeId) :
    (prog'.importsOf id).Perm (prog.importsOf id) := by
  unfold Program.importsOf Program.find
  rcases find_reorders h.modules id with ⟨h₁, h₂⟩ | ⟨m, m', h₁, h₂, hm⟩
  · rw [h₁, h₂]
  · rw [h₁, h₂]
    exact hm.imports

theorem providersOf_reorders (h : prog.Reorders prog') (id : TypeId) :
    (prog'.providersOf id).Perm (prog.providersOf id) := by
  unfold Program.providersOf Program.find
  rcases find_reorders h.modules id with ⟨h₁, h₂⟩ | ⟨m, m', h₁, h₂, hm⟩
  · rw [h₁, h₂]
  · rw [h₁, h₂]
    exact hm.providers

theorem ids_forall₂ {l l' : List ModuleDecl} (h : List.Forall₂ ModuleDecl.Reorders l l') :
    l'.map ModuleDecl.id = l.map ModuleDecl.id := by
  induction h with
  | nil => rfl
  | cons hm _ ih => rw [List.map_cons, List.map_cons, hm.id, ih]

theorem linked_reorders (h : prog.Reorders prog') {roots roots' : List TypeId}
    (hp : roots'.Perm roots) (hl : prog.Linked roots) : prog'.Linked roots' := by
  intro r hr
  rw [ids_forall₂ h.modules]
  exact hl r (hp.mem_iff.mp hr)

theorem imports_reorders (h : prog.Reorders prog') :
    Imports prog'.descriptors = Imports prog.descriptors := by
  rw [← edge_eq_imports, ← edge_eq_imports]
  funext a b
  unfold Edge
  rw [mem_vertices, mem_vertices, (importsOf_reorders h a).mem_iff]

theorem inClosure_reorders (h : prog.Reorders prog') :
    InClosure prog'.descriptors = InClosure prog.descriptors := by
  unfold InClosure
  rw [imports_reorders h]

theorem reachable_reorders (h : prog.Reorders prog') {roots roots' : List TypeId}
    (hp : roots'.Perm roots) (id : TypeId) :
    ReachableFrom prog'.descriptors roots' id ↔ ReachableFrom prog.descriptors roots id := by
  unfold ReachableFrom
  rw [inClosure_reorders h]
  simp only [hp.mem_iff]

theorem Program.Reorders.refl (prog : Program) : prog.Reorders prog :=
  ⟨List.forall₂_same.mpr fun _ _ => ⟨rfl, rfl, .refl _, .refl _⟩, rfl⟩

theorem ModuleDecl.Reorders.symm {m m' : ModuleDecl} (h : m.Reorders m') : m'.Reorders m :=
  ⟨h.id.symm, h.name.symm, h.imports.symm, h.providers.symm⟩

theorem Program.Reorders.symm (h : prog.Reorders prog') : prog'.Reorders prog where
  modules := (List.forall₂_iff_get.mpr (by
    obtain ⟨hlen, hget⟩ := List.forall₂_iff_get.mp h.modules
    exact ⟨hlen.symm, fun i h₁ h₂ => (hget i h₂ h₁).symm⟩))
  resolvers := h.resolvers.symm

/-! ## The validations over a program -/

theorem mem_descriptors {id k : TypeId} :
    (∃ n ∈ prog.descriptors, n.module = id ∧ ∃ q ∈ n.providers, q.provides = k) ↔
      ∃ x ∈ prog.providersOf id, x.providedKey = k := by
  unfold Program.descriptors
  constructor
  · rintro ⟨n, hn, rfl, q, hq, hk⟩
    obtain ⟨m, hm, rfl⟩ := List.mem_map.mp hn
    obtain ⟨x, hx, rfl⟩ := List.mem_map.mp hq
    exact ⟨x, mem_providersOf.mpr ⟨m, hm, rfl, hx⟩, hk⟩
  · rintro ⟨x, hx, hk⟩
    obtain ⟨m, hm, rfl, hx'⟩ := mem_providersOf.mp hx
    exact ⟨m.descriptor, List.mem_map.mpr ⟨m, hm, rfl⟩, rfl, x.descriptor,
      List.mem_map.mpr ⟨x, hx', rfl⟩, hk⟩

/-- A key some module of the closure of `id` lists a provider for. -/
def InClosureProvided (prog : Program) (id k : TypeId) : Prop :=
  ∃ n, InClosure prog.descriptors id n ∧ ∃ x ∈ prog.providersOf n, x.providedKey = k

theorem providedInClosure_iff {id k : TypeId} :
    ProvidedInClosure prog.descriptors id k ↔ InClosureProvided prog id k := by
  unfold ProvidedInClosure InClosureProvided
  constructor
  · rintro ⟨n, hn, hc, hq⟩
    exact ⟨n.module, hc, mem_descriptors.mp ⟨n, hn, rfl, hq⟩⟩
  · rintro ⟨id', hc, hx⟩
    obtain ⟨n, hn, rfl, hq⟩ := mem_descriptors.mpr hx
    exact ⟨n, hn, hc, hq⟩

/-- The access check over a program: what each injected key of a reachable provider satisfies. -/
theorem validateAccessGraph_program {order : HashOrder} {roots : List TypeId}
    {global : TypeId → Bool} :
    validateAccessGraph prog.descriptors order roots global = .ok () ↔
      ∀ id, ReachableFrom prog.descriptors roots id → ∀ b ∈ prog.providersOf id,
        ∀ k ∈ b.provider.injected, global k = false → ¬ InClosureProvided prog id k →
          ∀ n, ∀ x ∈ prog.providersOf n, x.providedKey ≠ k := by
  rw [validateAccessGraph_eq_ok (descriptors_distinct prog)]
  constructor
  · intro h id hr b hb k hk hg hc n x hx hxk
    obtain ⟨m, hm, rfl, hb'⟩ := mem_providersOf.mp hb
    obtain ⟨n', hn', rfl, q, hq, hqk⟩ := mem_descriptors.mpr ⟨x, hx, hxk⟩
    exact h m.descriptor b.descriptor k
      { linked := List.mem_map.mpr ⟨m, hm, rfl⟩
        reachable := hr
        listed := List.mem_map.mpr ⟨b, hb', rfl⟩
        injects := hk
        not_global := hg
        not_imported := fun hp => hc (providedInClosure_iff.mp hp)
        provided := ⟨n', q, hn', hq, hqk⟩ }
  · intro h m' p k v
    obtain ⟨m, hm, rfl⟩ := List.mem_map.mp v.linked
    obtain ⟨b, hb, rfl⟩ := List.mem_map.mp v.listed
    obtain ⟨n', q, hat⟩ := v.provided
    obtain ⟨x, hx, hxk⟩ := mem_descriptors.mp ⟨n', hat.linked, rfl, q, hat.listed, hat.provides⟩
    exact h m.id v.reachable b (mem_providersOf.mpr ⟨m, hm, rfl, hb⟩) k v.injects v.not_global
      (fun hp => v.not_imported (providedInClosure_iff.mpr hp)) n'.module x hx hxk

theorem validateResolverMembership_program {order : HashOrder} {roots : List TypeId} :
    validateResolverMembership prog.descriptors order roots prog.resolvers = .ok () ↔
      ∀ r ∈ prog.resolvers, ∃ id, ReachableFrom prog.descriptors roots id ∧
        ∃ x ∈ prog.providersOf id, x.providedKey = r.resolver := by
  rw [validateResolverMembership_eq_ok (descriptors_distinct prog)]
  refine forall₂_congr fun r _ => ?_
  constructor
  · rintro ⟨m, hm, hr, hq⟩
    exact ⟨m.module, hr, mem_descriptors.mp ⟨m, hm, rfl, hq⟩⟩
  · rintro ⟨id, hr, hx⟩
    obtain ⟨n, hn, rfl, hq⟩ := mem_descriptors.mpr hx
    exact ⟨n, hn, hr, hq⟩

/-- **The validations do not depend on order.** -/
theorem validations_reorders (h : prog.Reorders prog') {order order' : HashOrder}
    {roots roots' : List TypeId} (hp : roots'.Perm roots) (global : TypeId → Bool) :
    (validateAccessGraph prog.descriptors order roots global = .ok () →
        validateAccessGraph prog'.descriptors order' roots' global = .ok ()) ∧
      (validateResolverMembership prog.descriptors order roots prog.resolvers = .ok () →
        validateResolverMembership prog'.descriptors order' roots' prog'.resolvers = .ok ()) := by
  rw [validateAccessGraph_program, validateAccessGraph_program,
    validateResolverMembership_program, validateResolverMembership_program, h.resolvers]
  simp only [reachable_reorders h hp, (providersOf_reorders h _).mem_iff, InClosureProvided,
    inClosure_reorders h]
  exact ⟨fun hv => hv, fun hv => hv⟩

end Reorders

/-! ## Choosing an order -/

/-- The program with each module listed in the order of `f`. -/
def Program.reorder (prog : Program) (f : ModuleDecl → ModuleDecl)
    (hf : ∀ m : ModuleDecl, m.Reorders (f m)) : Program where
  modules := prog.modules.map f
  resolvers := prog.resolvers
  distinct := by
    have hids : (ModuleDecl.id ∘ f) = ModuleDecl.id := funext fun m => (hf m).id
    rw [List.map_map, hids]
    exact prog.distinct
  linked m hm id hid := by
    have hids : (ModuleDecl.id ∘ f) = ModuleDecl.id := funext fun m => (hf m).id
    rw [List.map_map, hids]
    obtain ⟨m₀, hm₀, rfl⟩ := List.mem_map.mp hm
    exact prog.linked m₀ hm₀ id ((hf m₀).imports.mem_iff.mp hid)

theorem reorders_reorder (prog : Program) (f : ModuleDecl → ModuleDecl)
    (hf : ∀ m : ModuleDecl, m.Reorders (f m)) : prog.Reorders (prog.reorder f hf) where
  modules := by
    unfold Program.reorder
    rw [List.forall₂_map_right_iff]
    exact List.forall₂_same.mpr fun m _ => hf m
  resolvers := rfl

theorem find_reorder (prog : Program) (f : ModuleDecl → ModuleDecl)
    (hf : ∀ m : ModuleDecl, m.Reorders (f m)) (id : TypeId) :
    (prog.reorder f hf).find id = (prog.find id).map f := by
  unfold Program.find Program.reorder
  rw [List.find?_map]
  have hids : (fun m => decide (m.id = id)) ∘ f = fun m : ModuleDecl => decide (m.id = id) := by
    funext m
    simp [(hf m).id]
  rw [hids]

end Nestrs.Core
