import Nestrs.Lib.Except
import Mathlib.Data.List.Sort
import Mathlib.Data.Prod.Lex
import Mathlib.Data.String.Basic

/-!
# Lifecycle hooks

Model of `crates/nestrs-core/src/lifecycle.rs` and of the `#[hooks]` macro
(`crates/nestrs-macros/src/hooks.rs`) that fills its registry.

* The registry is what `inventory` collects at link time: a list, in an order that no build
  promises. `hooksFor` picks the hooks of a phase and sorts them by `(provider, method)`.
  `sort_by_key` is stable, so hooks of one key keep the registry's order.
* `runPhase` runs them one after the other and stops at the first error; `run_phase_lenient` goes
  on, so it runs them all.
* The macro names a provider by the *last segment* of the impl block's self type. The function it
  emits for a hook is an item of the module the block stands in, so its path is unique in a program,
  but the key need not be: two modules may each have a `Cache` with a method `open`.

Results:
* `hooksFor_perm`, `hooksFor_pairwise`: a phase runs the hooks of the phase, in key order;
* `hooksFor_split`: what a phase runs before one of its hooks, and what behind it;
* `hooksFor_eq_of_perm`: with distinct keys the registry's order does not show;
* **`hook_order_iff`**: the execution of every phase is the same for all link orders iff no two
  hooks of one phase share provider name and method name.
-/

namespace Nestrs.Core

open Nestrs.Lib

/-- `LifecyclePhase`. -/
inductive LifecyclePhase where
  | onModuleInit
  | onApplicationBootstrap
  | onModuleDestroy
  | beforeApplicationShutdown
  | onApplicationShutdown
deriving DecidableEq, Repr

/-- `LifecycleHook`; `run` stands for its thunk. -/
structure LifecycleHook (R : Type) where
  phase : LifecyclePhase
  provider : String
  method : String
  run : R
deriving DecidableEq, Repr

variable {R ε : Type}

/-- The key hooks are sorted by. -/
def LifecycleHook.key (hook : LifecycleHook R) : Lex (String × String) :=
  toLex (hook.provider, hook.method)

/-- The order of a phase. -/
def KeyLe (a b : LifecycleHook R) : Prop := a.key ≤ b.key

instance : DecidableRel (KeyLe (R := R)) := fun a b => inferInstanceAs (Decidable (a.key ≤ b.key))

instance : Std.Total (KeyLe (R := R)) := ⟨fun a b => le_total a.key b.key⟩

instance : IsTrans (LifecycleHook R) KeyLe := ⟨fun _ _ _ hab hbc => le_trans hab hbc⟩

/-- `hooks_for`. -/
def hooksFor (registry : List (LifecycleHook R)) (phase : LifecyclePhase) :
    List (LifecycleHook R) :=
  (registry.filter fun hook => hook.phase = phase).insertionSort KeyLe

/-- The error of a hook, with the context `run_phase` adds. -/
structure HookError (ε : Type) where
  provider : String
  method : String
  phase : LifecyclePhase
  source : ε

/-- The loop of `run_phase`: the hooks that ran, and the first error. -/
def runHooks (call : LifecycleHook R → Except ε Unit) :
    List (LifecycleHook R) → List (LifecycleHook R) × Except (HookError ε) Unit
  | [] => ([], .ok ())
  | hook :: hooks =>
    match call hook with
    | .ok () =>
      let (ran, result) := runHooks call hooks
      (hook :: ran, result)
    | .error e => ([hook], .error ⟨hook.provider, hook.method, hook.phase, e⟩)

/-- `run_phase`. -/
def runPhase (call : LifecycleHook R → Except ε Unit) (registry : List (LifecycleHook R))
    (phase : LifecyclePhase) : List (LifecycleHook R) × Except (HookError ε) Unit :=
  runHooks call (hooksFor registry phase)

/-- `run_phase_lenient`: the hooks that ran. An error is logged. -/
def runPhaseLenient (registry : List (LifecycleHook R)) (phase : LifecyclePhase) :
    List (LifecycleHook R) :=
  hooksFor registry phase

/-- The hooks a phase executes: init phases stop at an error, shutdown phases do not. -/
def executed (call : LifecycleHook R → Except ε Unit) (registry : List (LifecycleHook R))
    (phase : LifecyclePhase) : List (LifecycleHook R) :=
  match phase with
  | .onModuleInit | .onApplicationBootstrap => (runPhase call registry phase).1
  | .onModuleDestroy | .beforeApplicationShutdown | .onApplicationShutdown =>
    runPhaseLenient registry phase

/-- Hooks that all return `Ok` are all run. -/
theorem runHooks_of_ok {call : LifecycleHook R → Except ε Unit} {hooks : List (LifecycleHook R)}
    (h : ∀ hook ∈ hooks, call hook = .ok ()) : runHooks call hooks = (hooks, .ok ()) := by
  induction hooks with
  | nil => rfl
  | cons hook hooks ih =>
    unfold runHooks
    rw [h hook List.mem_cons_self,
      ih fun other hother => h other (List.mem_cons_of_mem hook hother)]

theorem executed_of_ok {call : LifecycleHook R → Except ε Unit} (h : ∀ hook, call hook = .ok ())
    {registry : List (LifecycleHook R)} {phase : LifecyclePhase} :
    executed call registry phase = hooksFor registry phase := by
  unfold executed runPhase runPhaseLenient
  rw [runHooks_of_ok fun hook _ => h hook]
  cases phase <;> rfl

/-! ## The order of a phase -/

theorem hooksFor_perm (registry : List (LifecycleHook R)) (phase : LifecyclePhase) :
    (hooksFor registry phase).Perm (registry.filter fun hook => hook.phase = phase) :=
  List.perm_insertionSort KeyLe _

theorem mem_hooksFor {registry : List (LifecycleHook R)} {phase : LifecyclePhase}
    {hook : LifecycleHook R} :
    hook ∈ hooksFor registry phase ↔ hook ∈ registry ∧ hook.phase = phase := by
  rw [(hooksFor_perm registry phase).mem_iff, List.mem_filter, decide_eq_true_eq]

theorem hooksFor_pairwise (registry : List (LifecycleHook R)) (phase : LifecyclePhase) :
    (hooksFor registry phase).Pairwise KeyLe :=
  List.pairwise_insertionSort KeyLe _

theorem orderedInsert_append_of_le {a w : LifecycleHook R} (first last : List (LifecycleHook R))
    (haw : KeyLe a w) : (first ++ w :: last).orderedInsert KeyLe a =
      first.orderedInsert KeyLe a ++ w :: last := by
  induction first with
  | nil => exact List.orderedInsert_cons_of_le KeyLe last haw
  | cons x first ih =>
    rw [List.cons_append, List.orderedInsert_cons, List.orderedInsert_cons, ih]
    split
    · rfl
    · rfl

theorem orderedInsert_append_of_not_le {a : LifecycleHook R} {first : List (LifecycleHook R)}
    (hfirst : ∀ x ∈ first, ¬ KeyLe a x) (last : List (LifecycleHook R)) :
    (first ++ last).orderedInsert KeyLe a = first ++ last.orderedInsert KeyLe a := by
  induction first with
  | nil => rfl
  | cons x first ih =>
    obtain ⟨hx, hfirst⟩ := List.forall_mem_cons.mp hfirst
    rw [List.cons_append, List.orderedInsert_of_not_le KeyLe _ hx, ih hfirst]
    rfl

/-- A hook inserted into a phase goes behind those that sort before it. -/
theorem orderedInsert_split (w : LifecycleHook R) {hooks : List (LifecycleHook R)}
    (hsorted : hooks.Pairwise KeyLe) :
    ∃ first last, hooks.orderedInsert KeyLe w = first ++ w :: last ∧
      ∀ h, h ∈ first ↔ h ∈ hooks ∧ ¬ KeyLe w h := by
  induction hooks with
  | nil => exact ⟨[], [], rfl, fun h => by simp⟩
  | cons x hooks ih =>
    obtain ⟨hx, hsorted⟩ := List.pairwise_cons.mp hsorted
    by_cases hwx : KeyLe w x
    · have hall : ∀ h ∈ x :: hooks, KeyLe w h :=
        List.forall_mem_cons.mpr ⟨hwx, fun h hh => le_trans hwx (hx h hh)⟩
      refine ⟨[], x :: hooks, List.orderedInsert_cons_of_le KeyLe hooks hwx, fun h => ?_⟩
      exact ⟨fun hh => absurd hh List.not_mem_nil, fun hand => absurd (hall h hand.1) hand.2⟩
    · obtain ⟨first, last, hsplit, hfirst⟩ := ih hsorted
      refine ⟨x :: first, last, ?_, fun h => ?_⟩
      · rw [List.orderedInsert_of_not_le KeyLe hooks hwx, hsplit]
        rfl
      · rw [List.mem_cons, List.mem_cons, hfirst, or_and_right]
        exact or_congr_left ⟨fun heq => ⟨heq, heq ▸ hwx⟩, And.left⟩

/-- Where a hook of the registry ends up: behind the hooks linked before it that do not sort after
it, and those linked behind it that sort before it. -/
theorem insertionSort_split (w : LifecycleHook R) (before after : List (LifecycleHook R)) :
    ∃ first last, (before ++ w :: after).insertionSort KeyLe = first ++ w :: last ∧
      ∀ h, h ∈ first ↔ h ∈ before ∧ KeyLe h w ∨ h ∈ after ∧ ¬ KeyLe w h := by
  induction before with
  | nil =>
    obtain ⟨first, last, hsplit, hfirst⟩ :=
      orderedInsert_split w (List.pairwise_insertionSort KeyLe after)
    refine ⟨first, last, hsplit, fun h => ?_⟩
    rw [hfirst, List.mem_insertionSort]
    simp
  | cons a before ih =>
    obtain ⟨first, last, hsplit, hfirst⟩ := ih
    rw [List.cons_append, List.insertionSort_cons, hsplit]
    by_cases haw : KeyLe a w
    · refine ⟨first.orderedInsert KeyLe a, last, orderedInsert_append_of_le first last haw,
        fun h => ?_⟩
      rw [List.mem_orderedInsert, hfirst, List.mem_cons, or_and_right, or_assoc]
      exact or_congr_left ⟨fun heq => ⟨heq, heq ▸ haw⟩, And.left⟩
    · refine ⟨first, last.orderedInsert KeyLe a, ?_, fun h => ?_⟩
      · have hnot : ∀ x ∈ first, ¬ KeyLe a x := by
          intro x hx hax
          rcases (hfirst x).mp hx with ⟨-, hxw⟩ | ⟨-, hwx⟩
          · exact haw (le_trans hax hxw)
          · exact haw (le_trans hax (le_of_not_ge hwx))
        rw [orderedInsert_append_of_not_le hnot, List.orderedInsert_of_not_le KeyLe last haw]
      · rw [hfirst, List.mem_cons, or_and_right, or_assoc]
        exact (or_iff_right fun hand : h = a ∧ KeyLe h w => haw (hand.1 ▸ hand.2)).symm

/-- The hooks of a phase around one of them: those in front sort before it, or have its key and are
linked before it. -/
theorem hooksFor_split (w : LifecycleHook R) (before after : List (LifecycleHook R)) :
    ∃ first last, hooksFor (before ++ w :: after) w.phase = first ++ w :: last ∧
      ∀ h, h ∈ first ↔ h.phase = w.phase ∧
        (h ∈ before ∧ KeyLe h w ∨ h ∈ after ∧ ¬ KeyLe w h) := by
  obtain ⟨first, last, hsplit, hfirst⟩ := insertionSort_split w
    (before.filter fun hook => hook.phase = w.phase) (after.filter fun hook => hook.phase = w.phase)
  refine ⟨first, last, ?_, fun h => ?_⟩
  · unfold hooksFor
    rw [List.filter_append, List.filter_cons_of_pos (by simp)]
    exact hsplit
  · rw [hfirst, List.mem_filter, List.mem_filter, decide_eq_true_eq]
    constructor
    · rintro (⟨⟨hmem, hphase⟩, hle⟩ | ⟨⟨hmem, hphase⟩, hle⟩)
      · exact ⟨hphase, Or.inl ⟨hmem, hle⟩⟩
      · exact ⟨hphase, Or.inr ⟨hmem, hle⟩⟩
    · rintro ⟨hphase, ⟨hmem, hle⟩ | ⟨hmem, hle⟩⟩
      · exact Or.inl ⟨⟨hmem, hphase⟩, hle⟩
      · exact Or.inr ⟨⟨hmem, hphase⟩, hle⟩

/-- Hooks of one phase in the registry's order stay in it where the keys allow. -/
theorem sublist_hooksFor {registry c : List (LifecycleHook R)} {phase : LifecyclePhase}
    (hc : c.Pairwise KeyLe) (hsub : c.Sublist registry) (hphase : ∀ hook ∈ c, hook.phase = phase) :
    c.Sublist (hooksFor registry phase) := by
  refine List.sublist_insertionSort hc ?_
  have hkeep : c.filter (fun hook => hook.phase = phase) = c :=
    List.filter_eq_self.mpr fun hook hhook => decide_eq_true (hphase hook hhook)
  rw [← hkeep]
  exact hsub.filter _

/-- No two hooks of one phase have one key. -/
def DistinctHookKeys (hooks : List (LifecycleHook R)) : Prop :=
  ∀ a ∈ hooks, ∀ b ∈ hooks, a.phase = b.phase → a.provider = b.provider → a.method = b.method →
    a = b

/-- With distinct keys a phase is the same for all orders of the registry. -/
theorem hooksFor_eq_of_perm {r₁ r₂ : List (LifecycleHook R)} (hperm : r₁.Perm r₂)
    (hdistinct : DistinctHookKeys r₁) (phase : LifecyclePhase) :
    hooksFor r₁ phase = hooksFor r₂ phase := by
  refine @List.Perm.eq_of_pairwise _ KeyLe _ _ ?_ (hooksFor_pairwise r₁ phase)
    (hooksFor_pairwise r₂ phase) ?_
  · intro a b ha hb hab hba
    obtain ⟨ha, hpa⟩ := mem_hooksFor.mp ha
    obtain ⟨hb, hpb⟩ := mem_hooksFor.mp hb
    have hkey : a.key = b.key := le_antisymm hab hba
    have hkey : (a.provider, a.method) = (b.provider, b.method) := hkey
    rw [Prod.mk.injEq] at hkey
    exact hdistinct a ha b (hperm.mem_iff.mpr hb) (hpa.trans hpb.symm) hkey.1 hkey.2
  · exact (hooksFor_perm r₁ phase).trans
      ((hperm.filter _).trans (hooksFor_perm r₂ phase).symm)

/-- Two hooks of one phase and one key run in the order the registry has them. -/
theorem pair_sublist_hooksFor {a b : LifecycleHook R} (rest : List (LifecycleHook R))
    (hphase : b.phase = a.phase) (hprovider : a.provider = b.provider)
    (hmethod : a.method = b.method) :
    [a, b].Sublist (hooksFor (a :: b :: rest) a.phase) := by
  have hkey : KeyLe a b := by
    unfold KeyLe LifecycleHook.key
    rw [hprovider, hmethod]
  refine sublist_hooksFor ?_ ?_ ?_
  · rw [List.pairwise_pair]
    exact hkey
  · exact ((List.nil_sublist rest).cons_cons b).cons_cons a
  · intro hook hhook
    rcases List.mem_cons.mp hhook with rfl | hhook
    · rfl
    · rw [List.mem_singleton.mp hhook]
      exact hphase

/-- In a list without duplicates two elements come in one order. -/
theorem not_both_orders {α : Type} {a b : α} {l : List α} (hne : a ≠ b) (hl : l.Nodup)
    (hab : [a, b].Sublist l) : ¬ [b, a].Sublist l := by
  intro hba
  induction l with
  | nil => cases hab
  | cons x l ih =>
    obtain ⟨hfresh, hl⟩ := List.nodup_cons.mp hl
    cases hab with
    | cons _ hab =>
      cases hba with
      | cons _ hba => exact ih hl hab hba
      | cons_cons _ _ => exact hfresh (hab.mem (by simp))
    | cons_cons _ hb =>
      cases hba with
      | cons _ hba => exact hfresh (hba.mem (by simp))
      | cons_cons _ _ => exact hne rfl

/-! ## What the macro emits -/

/-- A method of an impl block: its attributes, by name, and whether it is an `async fn`. -/
structure HookMethod where
  name : String
  attrs : List String
  isAsync : Bool

/-- An impl block under `#[hooks]`: the module it stands in, and the segments of its self type. -/
structure HooksImpl where
  modulePath : List String
  selfTy : List String
  methods : List HookMethod

/-- The path of the function emitted for a hook: `__nestrs_hook_<base>_<method>` in the block's
module. -/
structure HookFn where
  modulePath : List String
  base : String
  method : String
deriving DecidableEq, Repr

/-- `HOOK_ATTRS`. -/
def hookAttrs : List (String × LifecyclePhase) :=
  [("on_module_init", .onModuleInit),
    ("on_application_bootstrap", .onApplicationBootstrap),
    ("on_module_destroy", .onModuleDestroy),
    ("before_application_shutdown", .beforeApplicationShutdown),
    ("on_application_shutdown", .onApplicationShutdown)]

/-- The submissions of a block whose methods are these, in order. -/
def hookMethods (modulePath : List String) (base : String) :
    List HookMethod → Except String (List (LifecycleHook HookFn))
  | [] => .ok []
  | method :: methods =>
    match method.attrs.findSome? fun attr => hookAttrs.lookup attr with
    | none => hookMethods modulePath base methods
    | some phase =>
      if method.isAsync then do
        let hooks ← hookMethods modulePath base methods
        .ok (⟨phase, base, method.name, ⟨modulePath, base, method.name⟩⟩ :: hooks)
      else .error "#[hooks] methods must be `async fn`"

/-- `#[hooks]`: the base of the self type is its last segment (`impl_self_ident`). -/
def hooks (item : HooksImpl) : Except String (List (LifecycleHook HookFn)) :=
  match item.selfTy.getLast? with
  | none => .error "#[hooks] requires a simple struct path (e.g. `impl MyService`)"
  | some base => hookMethods item.modulePath base item.methods

/-- The submissions of all blocks. -/
def submissions : List HooksImpl → Except String (List (LifecycleHook HookFn))
  | [] => .ok []
  | item :: items => do
    let first ← hooks item
    let rest ← submissions items
    .ok (first ++ rest)

/-- A program whose `#[hooks]` blocks compile. -/
structure HookProgram where
  items : List HooksImpl
  hooks : List (LifecycleHook HookFn)
  emitted : submissions items = .ok hooks
  /-- No two functions have one path. -/
  distinct : (hooks.map LifecycleHook.run).Nodup

/-- **The order of hooks and the link order.** In every program every phase executes the same hooks
in the same order under any two orders of the registry, whatever the hooks return, iff no two hooks
of one phase share their provider's name and their method's. -/
theorem hook_order_iff (p : HookProgram) :
    (∀ r₁ r₂ : List (LifecycleHook HookFn), r₁.Perm p.hooks → r₂.Perm p.hooks →
      ∀ (call : LifecycleHook HookFn → Except String Unit) (phase : LifecyclePhase),
        executed call r₁ phase = executed call r₂ phase) ↔
      DistinctHookKeys p.hooks := by
  constructor
  · intro hsame a ha b hb hphase hprovider hmethod
    by_contra hne
    -- the two orders that put `a` and `b` in front
    obtain ⟨rest, hab⟩ : ∃ rest, (a :: b :: rest).Perm p.hooks := by
      have hmem : b ∈ p.hooks.erase a := (List.mem_erase_of_ne (Ne.symm hne)).mpr hb
      exact ⟨(p.hooks.erase a).erase b,
        ((List.perm_cons_erase hmem).symm.cons a).trans (List.perm_cons_erase ha).symm⟩
    have hba : (b :: a :: rest).Perm p.hooks := (List.Perm.swap a b rest).trans hab
    have hnodup : (hooksFor (a :: b :: rest) a.phase).Nodup := by
      refine (hooksFor_perm _ _).nodup_iff.mpr (List.Nodup.filter _ ?_)
      exact hab.nodup_iff.mpr (List.Nodup.of_map _ p.distinct)
    have heq := hsame _ _ hab hba (fun _ => .ok ()) a.phase
    rw [executed_of_ok fun _ => rfl, executed_of_ok fun _ => rfl] at heq
    have hfirst := pair_sublist_hooksFor rest hphase.symm hprovider hmethod
    have hsecond := pair_sublist_hooksFor rest hphase hprovider.symm hmethod.symm
    rw [← hphase, ← heq] at hsecond
    exact not_both_orders hne hnodup hfirst hsecond
  · intro hdistinct r₁ r₂ h₁ h₂ call phase
    have hdistinct₁ : DistinctHookKeys r₁ := fun a ha b hb =>
      hdistinct a (h₁.mem_iff.mp ha) b (h₁.mem_iff.mp hb)
    have heq := hooksFor_eq_of_perm (h₁.trans h₂.symm) hdistinct₁ phase
    unfold executed runPhase runPhaseLenient
    rw [heq]

/-- The caches of two modules, each opened when its module is. -/
def twoCaches : HookProgram where
  items := [⟨["users"], ["Cache"], [⟨"open", ["on_module_init"], true⟩]⟩,
    ⟨["orgs"], ["Cache"], [⟨"open", ["on_module_init"], true⟩]⟩]
  hooks := [⟨.onModuleInit, "Cache", "open", ⟨["users"], "Cache", "open"⟩⟩,
    ⟨.onModuleInit, "Cache", "open", ⟨["orgs"], "Cache", "open"⟩⟩]
  emitted := rfl
  distinct := by decide

/-- The first linked is the first opened. -/
theorem twoCaches_link_order :
    twoCaches.hooks.reverse.Perm twoCaches.hooks ∧
      (executed (fun _ => (.ok () : Except String Unit)) twoCaches.hooks .onModuleInit).map
          (fun hook => hook.run.modulePath) = [["users"], ["orgs"]] ∧
      (executed (fun _ => (.ok () : Except String Unit)) twoCaches.hooks.reverse
          .onModuleInit).map (fun hook => hook.run.modulePath) = [["orgs"], ["users"]] ∧
      executed (fun _ => (.ok () : Except String Unit)) twoCaches.hooks .onModuleInit ≠
        executed (fun _ => (.ok () : Except String Unit)) twoCaches.hooks.reverse
          .onModuleInit := by
  refine ⟨List.reverse_perm _, by decide, by decide, by decide⟩

end Nestrs.Core
