import Nestrs.Core.Container
import Nestrs.Lib.Saturate

/-!
# The registration fixpoint of a module

Model of the loop `#[module]` emits for `providers = [...]`
(`crates/nestrs-macros/src/module.rs`). Each round walks the providers not done yet and registers
those that are `ready`: every required dependency is in the builder, and every optional one is
there or is the key of no provider pending *when the round began*. A round without progress panics
and says whether the providers left wait on each other or on something nobody provides.

The array `__done` is the list of the providers still pending, in the order they are listed.
A binding `P as dyn T` of a lazily built `P` is `ungated`: `P` declares no dependencies, so the
loop waits for nothing, and then builds `P` from the snapshot all the same.

Results:
* **`registerProviders_spec`**: the loop registers providers one at a time, each when it is ready,
  and ends with none left, with an ungated one that does not resolve, or stalled; it always ends;
* **`fixpoint_order_independent`**: when no ungated binding resolves a key of its own list, nothing
  a run decides depends on the order of the list; otherwise, if the list registers at all,
  something does.
-/

namespace Nestrs.Core

open Nestrs.Lib

/-- `__required_ready && __optional_ready`. -/
def ready (c : Container) (pendingKeys : List TypeId) (b : ProviderBinding) : Bool :=
  b.provider.dependencies.all c.contains &&
    b.provider.optionalDependencies.all fun id => c.contains id || !pendingKeys.contains id

/-- One round over the pending providers: the container after it and the providers left. -/
def round (pendingKeys : List TypeId) :
    List ProviderBinding → Container → Except Stop (Container × List ProviderBinding)
  | [], c => .ok (c, [])
  | b :: bs, c =>
    if ready c pendingKeys b then do
      round pendingKeys bs (← b.register c)
    else do
      let (c, pending) ← round pendingKeys bs c
      .ok (c, b :: pending)

/-- `__missing_ids` with `__missing_names`. -/
def missing (c : Container) (p : Provider) : List (TypeId × String) :=
  (p.dependencies.zip p.dependencyNames).filter fun d => !c.contains d.1

/-- The provider goes to `__cyclic`: it lacks something, and only what pending providers supply. -/
def waitsOnPending (c : Container) (pendingKeys : List TypeId) (b : ProviderBinding) : Bool :=
  !(missing c b.provider).isEmpty &&
    (missing c b.provider).all fun d => pendingKeys.contains d.1

/-- The panic of a round without progress. -/
def stall (module : String) (c : Container) (pending : List ProviderBinding) : Panic :=
  let pendingKeys := pending.map ProviderBinding.providedKey
  let cyclic := (pending.filter fun b => waitsOnPending c pendingKeys b).map fun b =>
    b.provider.name
  let unprovided := (pending.filter fun b => !waitsOnPending c pendingKeys b).map fun b =>
    b.provider.name ++ " (needs " ++ ", ".intercalate ((missing c b.provider).map Prod.snd) ++ ")"
  if !unprovided.isEmpty then .cannotRegister module unprovided
  else .dependencyCycle module cyclic

/-- The `loop`, for at most as many rounds. -/
def fixpointLoop (module : String) : Nat → List ProviderBinding → Container →
    Except Stop Container
  | 0, _, c => .error ⟨.spin, c.log⟩
  | rounds + 1, pending, c => do
    let (c, left) ← round (pending.map ProviderBinding.providedKey) pending c
    if left.isEmpty then .ok c
    else if left.length = pending.length then .error ⟨stall module c left, c.log⟩
    else fixpointLoop module rounds left c

/-- The provider half of the `register` body `#[module]` emits. -/
def registerProviders (module : String) (providers : List ProviderBinding) (c : Container) :
    Except Stop Container :=
  fixpointLoop module (providers.length + 1) providers c

/-! ## What a binding waits for -/

namespace ProviderBinding

/-- Built when it is registered, with nothing waited for: a trait-object binding of a type that
is not eager. -/
def ungated : ProviderBinding → Bool
  | concrete _ => false
  | dyn p _ _ => !p.eager

theorem dependencies_of_reads {b : ProviderBinding} (hb : b.ungated = false) {f : InjectField}
    (hf : f ∈ b.reads) :
    (f.optional = false → f.key ∈ b.provider.dependencies) ∧
      (f.optional = true → f.key ∈ b.provider.optionalDependencies) := by
  have heager : b.provider.eager = true ∧ f ∈ b.provider.fields := by
    cases b with
    | concrete p =>
      by_cases he : p.eager = true
      · rw [reads, if_pos he] at hf
        exact ⟨he, hf⟩
      · rw [reads, if_neg he] at hf
        exact absurd hf List.not_mem_nil
    | dyn p traitName traitKey =>
      simp only [ungated, Bool.not_eq_false'] at hb
      exact ⟨hb, hf⟩
  unfold Provider.dependencies Provider.optionalDependencies
  rw [if_pos heager.1, if_pos heager.1]
  constructor
  · intro ho
    exact List.mem_map.mpr ⟨f, List.mem_filter.mpr ⟨heager.2, by simp [ho]⟩, rfl⟩
  · intro ho
    exact List.mem_map.mpr ⟨f, List.mem_filter.mpr ⟨heager.2, by simp [ho]⟩, rfl⟩

/-- An eager provider resolves all its fields when it is registered. -/
theorem reads_of_eager {b : ProviderBinding} (he : b.provider.eager = true) :
    b.reads = b.provider.fields := by
  cases b with
  | concrete p => exact if_pos he
  | dyn p traitName traitKey => rfl

/-- A dependency the loop waits for is the key of a field resolved then. -/
theorem reads_of_dependencies {b : ProviderBinding} {k : TypeId} :
    (k ∈ b.provider.dependencies → ∃ f ∈ b.reads, f.optional = false ∧ f.key = k) ∧
      (k ∈ b.provider.optionalDependencies → ∃ f ∈ b.reads, f.optional = true ∧ f.key = k) := by
  unfold Provider.dependencies Provider.optionalDependencies
  by_cases he : b.provider.eager = true
  · rw [if_pos he, if_pos he, reads_of_eager he]
    constructor
    · intro hk
      obtain ⟨f, hf, hkey⟩ := List.mem_map.mp hk
      have hf' := List.mem_filter.mp hf
      exact ⟨f, hf'.1, by simpa using hf'.2, hkey⟩
    · intro hk
      obtain ⟨f, hf, hkey⟩ := List.mem_map.mp hk
      have hf' := List.mem_filter.mp hf
      exact ⟨f, hf'.1, by simpa using hf'.2, hkey⟩
  · rw [if_neg he, if_neg he]
    exact ⟨fun h => absurd h List.not_mem_nil, fun h => absurd h List.not_mem_nil⟩

end ProviderBinding

theorem ready_iff {c : Container} {pendingKeys : List TypeId} {b : ProviderBinding} :
    ready c pendingKeys b = true ↔
      (∀ r ∈ b.provider.dependencies, c.contains r = true) ∧
        ∀ o ∈ b.provider.optionalDependencies, c.contains o = true ∨ o ∉ pendingKeys := by
  simp [ready, List.all_eq_true, Bool.or_eq_true]

theorem ready_of_ungated {b : ProviderBinding} (hb : b.ungated = true) (c : Container)
    (pendingKeys : List TypeId) : ready c pendingKeys b = true := by
  cases b with
  | concrete p => exact absurd hb (by simp [ProviderBinding.ungated])
  | dyn p traitName traitKey =>
    have he : p.eager = false := by simpa [ProviderBinding.ungated] using hb
    simp [ready, ProviderBinding.provider, Provider.dependencies, Provider.optionalDependencies, he]

/-- A gated binding that is ready resolves. -/
theorem resolves_of_ready {c : Container} {pendingKeys : List TypeId} {b : ProviderBinding}
    (hb : b.ungated = false) (h : ready c pendingKeys b = true) : c.Resolves b := by
  intro f hf ho
  exact (ready_iff.mp h).1 f.key ((ProviderBinding.dependencies_of_reads hb hf).1 ho)

theorem ready_anti {c : Container} {keys keys' : List TypeId} {b : ProviderBinding}
    (hk : ∀ k ∈ keys', k ∈ keys) (h : ready c keys b = true) : ready c keys' b = true := by
  rw [ready_iff] at h ⊢
  refine ⟨h.1, fun o ho => ?_⟩
  rcases h.2 o ho with hc | hn
  · exact Or.inl hc
  · exact Or.inr fun hm => hn (hk o hm)

/-! ## Registering a list, one at a time -/

namespace Container

/-- The container after the bindings were registered in this order. -/
def afterAll (c : Container) (bs : List ProviderBinding) : Container := bs.foldl after c

/-- The log entries of registering them. -/
def entries (c : Container) : List ProviderBinding → List Built
  | [] => []
  | b :: bs => ⟨b, b.reads.map fun f => (f, c.get f.key)⟩ :: (c.after b).entries bs

@[simp] theorem afterAll_nil (c : Container) : c.afterAll [] = c := rfl

@[simp] theorem afterAll_cons (c : Container) (b : ProviderBinding) (bs : List ProviderBinding) :
    c.afterAll (b :: bs) = (c.after b).afterAll bs := rfl

theorem afterAll_append (c : Container) (bs bs' : List ProviderBinding) :
    c.afterAll (bs ++ bs') = (c.afterAll bs).afterAll bs' := List.foldl_append

theorem contains_afterAll (c : Container) (bs : List ProviderBinding) (k : TypeId) :
    (c.afterAll bs).contains k = true ↔ c.contains k = true ∨ ∃ b ∈ bs, k ∈ b.adds := by
  induction bs generalizing c with
  | nil => simp
  | cons b bs ih =>
    rw [afterAll_cons, ih, contains_after, List.exists_mem_cons_iff, or_assoc]

theorem log_afterAll (c : Container) (bs : List ProviderBinding) :
    (c.afterAll bs).log = c.log ++ c.entries bs := by
  induction bs generalizing c with
  | nil => simp [entries]
  | cons b bs ih =>
    rw [afterAll_cons, ih, entries]
    simp [after]

theorem entries_append (c : Container) (bs bs' : List ProviderBinding) :
    c.entries (bs ++ bs') = c.entries bs ++ (c.afterAll bs).entries bs' := by
  induction bs generalizing c with
  | nil => rfl
  | cons b bs ih => rw [List.cons_append, entries, ih, entries, afterAll_cons, List.cons_append]

theorem binding_entries (c : Container) (bs : List ProviderBinding) :
    (c.entries bs).map Built.binding = bs := by
  induction bs generalizing c with
  | nil => rfl
  | cons b bs ih => rw [entries, List.map_cons, ih]

/-- An entry of the log belongs to a binding and shows the container it was built from. -/
theorem split_of_entries {c : Container} {bs : List ProviderBinding} {pre post : List Built}
    {e : Built} (h : c.entries bs = pre ++ e :: post) :
    ∃ bpre b bpost, bs = bpre ++ b :: bpost ∧ pre = c.entries bpre ∧
      e = ⟨b, b.reads.map fun f => (f, (c.afterAll bpre).get f.key)⟩ := by
  induction pre generalizing c bs with
  | nil =>
    cases bs with
    | nil => exact nomatch h
    | cons b bs =>
      rw [entries, List.nil_append, List.cons.injEq] at h
      exact ⟨[], b, bs, rfl, rfl, h.1.symm⟩
  | cons d pre ih =>
    cases bs with
    | nil => exact nomatch h
    | cons b bs =>
      rw [entries, List.cons_append, List.cons.injEq] at h
      obtain ⟨bpre, b', bpost, rfl, rfl, rfl⟩ := ih h.2
      exact ⟨b :: bpre, b', bpost, rfl, by rw [entries, h.1], rfl⟩

theorem mem_entries {c : Container} {bs : List ProviderBinding} {e : Built}
    (h : e ∈ c.entries bs) :
    ∃ pre b post, bs = pre ++ b :: post ∧
      e = ⟨b, b.reads.map fun f => (f, (c.afterAll pre).get f.key)⟩ := by
  obtain ⟨pre, post, hsplit⟩ := List.append_of_mem h
  obtain ⟨bpre, b, bpost, hbs, -, he⟩ := split_of_entries hsplit
  exact ⟨bpre, b, bpost, hbs, he⟩

end Container

/-- The bindings are registered in this order, `rest` staying pending: each is ready, for the keys
pending at its turn, and resolves. -/
def Registered (rest : List ProviderBinding) : Container → List ProviderBinding → Prop
  | _, [] => True
  | c, b :: bs =>
    ready c ((b :: bs ++ rest).map ProviderBinding.providedKey) b = true ∧ c.Resolves b ∧
      Registered rest (c.after b) bs

namespace Registered

theorem anti {rest rest' : List ProviderBinding} (hr : ∀ b ∈ rest', b ∈ rest) :
    ∀ {bs : List ProviderBinding} {c : Container}, Registered rest c bs → Registered rest' c bs
  | [], _, _ => trivial
  | b :: bs, c, h => by
    refine ⟨ready_anti (fun k hk => ?_) h.1, h.2.1, h.2.2.anti hr⟩
    obtain ⟨x, hx, rfl⟩ := List.mem_map.mp hk
    rcases List.mem_append.mp hx with hx | hx
    · exact List.mem_map.mpr ⟨x, List.mem_append_left _ hx, rfl⟩
    · exact List.mem_map.mpr ⟨x, List.mem_append_right _ (hr x hx), rfl⟩

theorem append {rest bs' : List ProviderBinding} :
    ∀ {bs : List ProviderBinding} {c : Container}, Registered (bs' ++ rest) c bs →
      Registered rest (c.afterAll bs) bs' → Registered rest c (bs ++ bs')
  | [], _, _, h' => h'
  | b :: bs, c, h, h' => by
    refine ⟨?_, h.2.1, h.2.2.append h'⟩
    have hr := h.1
    rw [← List.append_assoc, List.cons_append] at hr
    exact hr

/-- What holds at the turn of each binding. -/
theorem split {rest post : List ProviderBinding} {b : ProviderBinding} :
    ∀ {pre : List ProviderBinding} {c : Container}, Registered rest c (pre ++ b :: post) →
      ready (c.afterAll pre) ((b :: post ++ rest).map ProviderBinding.providedKey) b = true ∧
        (c.afterAll pre).Resolves b
  | [], _, h => ⟨h.1, h.2.1⟩
  | _ :: _, _, h => h.2.2.split

end Registered

/-! ## The loop -/

/-- A round registers some of the pending providers, or panics at one that does not resolve.
`skipped` are the pending providers the round has passed already. -/
theorem round_spec (keys : List TypeId) (bs : List ProviderBinding) (c : Container)
    (skipped : List ProviderBinding) (hkeys : ∀ b ∈ bs ++ skipped, b.providedKey ∈ keys) :
    (∃ done left, (done ++ left).Perm bs ∧ Registered (left ++ skipped) c done ∧
        round keys bs c = .ok (c.afterAll done, left) ∧
        (done = [] → left = bs ∧ ∀ b ∈ bs, ready c keys b = false)) ∨
      ∃ done b left message, (done ++ b :: left).Perm bs ∧
        Registered (b :: left ++ skipped) c done ∧
        ready (c.afterAll done) ((b :: left ++ skipped).map ProviderBinding.providedKey) b = true ∧
        ¬ (c.afterAll done).Resolves b ∧
        round keys bs c = .error ⟨.expect message, (c.afterAll done).log⟩ := by
  induction bs generalizing c skipped with
  | nil => exact Or.inl ⟨[], [], .refl _, trivial, rfl, fun _ => ⟨rfl, by simp⟩⟩
  | cons b bs ih =>
    -- the keys pending at `b`'s turn are among those of the start of the round
    have hstale : ∀ l : List ProviderBinding, (∀ x ∈ l, x ∈ b :: bs ++ skipped) →
        ∀ k ∈ l.map ProviderBinding.providedKey, k ∈ keys := by
      intro l hl k hk
      obtain ⟨x, hx, rfl⟩ := List.mem_map.mp hk
      exact hkeys x (hl x hx)
    by_cases hready : ready c keys b = true
    · by_cases hres : c.Resolves b
      · have hround : round keys (b :: bs) c = round keys bs (c.after b) := by
          rw [round, if_pos hready, (register_eq b c).1 hres]
          rfl
        rcases ih (c.after b) skipped
            (fun x hx => hkeys x (by rw [List.cons_append]; exact List.mem_cons_of_mem b hx)) with
          ⟨done, left, hperm, hreg, hr, -⟩ | ⟨done, b', left, message, hperm, hreg, hr', hn, hr⟩
        · refine Or.inl ⟨b :: done, left, hperm.cons b, ⟨?_, hres, hreg⟩, ?_, fun h => nomatch h⟩
          · refine ready_anti (hstale _ fun x hx => ?_) hready
            rw [← List.append_assoc] at hx
            rcases List.mem_append.mp hx with hx | hx
            · exact List.mem_append_left _ ((hperm.cons b).mem_iff.mp hx)
            · exact List.mem_append_right _ hx
          · rw [hround, hr, Container.afterAll_cons]
        · refine Or.inr ⟨b :: done, b', left, message, hperm.cons b, ⟨?_, hres, hreg⟩, hr', hn, ?_⟩
          · refine ready_anti (hstale _ fun x hx => ?_) hready
            rw [← List.append_assoc] at hx
            rcases List.mem_append.mp hx with hx | hx
            · exact List.mem_append_left _ ((hperm.cons b).mem_iff.mp hx)
            · exact List.mem_append_right _ hx
          · rw [hround, hr, Container.afterAll_cons]
      · obtain ⟨message, hm⟩ := (register_eq b c).2 hres
        refine Or.inr ⟨[], b, bs, message, .refl _, trivial,
          ready_anti (hstale _ fun x hx => hx) hready, hres, ?_⟩
        rw [round, if_pos hready, hm]
        rfl
    · have hmid : ∀ x, x ∈ bs ++ b :: skipped → x ∈ b :: bs ++ skipped := by
        intro x hx
        exact List.perm_middle.mem_iff.mp hx
      rcases ih c (b :: skipped) (fun x hx => hkeys x (hmid x hx)) with
        ⟨done, left, hperm, hreg, hr, hnone⟩ | ⟨done, b', left, message, hperm, hreg, hr', hn, hr⟩
      · refine Or.inl ⟨done, b :: left, List.perm_middle.trans (hperm.cons b),
          hreg.anti fun x hx => List.perm_middle.mem_iff.mpr hx, ?_, fun hd => ?_⟩
        · rw [round, if_neg hready, hr]
          rfl
        · obtain ⟨rfl, hall⟩ := hnone hd
          exact ⟨rfl, List.forall_mem_cons.mpr ⟨by simpa using hready, hall⟩⟩
      · have hperm' : (done ++ b' :: (b :: left)).Perm (b :: bs) :=
          ((List.Perm.swap b b' left).append_left done).trans
            (List.perm_middle.trans (hperm.cons b))
        have hmem : ∀ x, x ∈ b' :: (b :: left) ++ skipped → x ∈ b' :: left ++ b :: skipped := by
          intro x hx
          simp only [List.mem_append, List.mem_cons] at hx ⊢
          tauto
        refine Or.inr ⟨done, b', b :: left, message, hperm', hreg.anti hmem, ?_, hn, ?_⟩
        · refine ready_anti (fun k hk => ?_) hr'
          obtain ⟨x, hx, rfl⟩ := List.mem_map.mp hk
          exact List.mem_map.mpr ⟨x, hmem x hx, rfl⟩
        · rw [round, if_neg hready, hr]
          rfl

/-- How the loop ends, at the container `c` with the providers `rest` not registered. -/
inductive Ends (module : String) (c : Container) (rest : List ProviderBinding) :
    Except Stop Container → Prop
  | done (hrest : rest = []) : Ends module c rest (.ok c)
  | expect {b : ProviderBinding} (hb : b ∈ rest)
      (hready : ready c (rest.map ProviderBinding.providedKey) b = true) (hres : ¬ c.Resolves b)
      (message : String) : Ends module c rest (.error ⟨.expect message, c.log⟩)
  | stall (hrest : rest ≠ [])
      (hstuck : ∀ b ∈ rest, ready c (rest.map ProviderBinding.providedKey) b = false) :
      Ends module c rest (.error ⟨stall module c rest, c.log⟩)

theorem fixpointLoop_spec (module : String) (rounds : Nat) (bs : List ProviderBinding)
    (c : Container) (hn : bs.length < rounds) :
    ∃ done rest, (done ++ rest).Perm bs ∧ Registered rest c done ∧
      Ends module (c.afterAll done) rest (fixpointLoop module rounds bs c) := by
  induction rounds generalizing bs c with
  | zero => exact absurd hn (Nat.not_lt_zero _)
  | succ rounds ih =>
    rcases round_spec (bs.map ProviderBinding.providedKey) bs c []
        (fun b hb => List.mem_map.mpr ⟨b, by simpa using hb, rfl⟩) with
      ⟨done, left, hperm, hreg, hr, hnone⟩ | ⟨done, b, left, message, hperm, hreg, hr', hres, hr⟩
    · rw [List.append_nil] at hreg
      have hloop : fixpointLoop module (rounds + 1) bs c =
          if left.isEmpty then .ok (c.afterAll done)
          else if left.length = bs.length then
            .error ⟨stall module (c.afterAll done) left, (c.afterAll done).log⟩
          else fixpointLoop module rounds left (c.afterAll done) := by
        rw [fixpointLoop, hr]
        rfl
      rw [hloop]
      have hlen : done.length + left.length = bs.length := by
        rw [← List.length_append, hperm.length_eq]
      by_cases hempty : left = []
      · refine ⟨done, left, hperm, hreg, ?_⟩
        rw [if_pos (by simp [hempty])]
        exact .done hempty
      · rw [if_neg (by simpa using hempty)]
        by_cases hstall : left.length = bs.length
        · -- nothing was registered, so the keys of the round's start are the pending ones
          have hdone : done = [] := List.eq_nil_of_length_eq_zero (by omega)
          obtain ⟨hl, hall⟩ := hnone hdone
          refine ⟨done, left, hperm, hreg, ?_⟩
          rw [if_pos hstall]
          refine .stall hempty fun b hb => ?_
          rw [hdone, Container.afterAll_nil, hl]
          exact hall b (hl ▸ hb)
        · rw [if_neg hstall]
          obtain ⟨done', rest, hperm', hreg', hends⟩ :=
            ih left (c.afterAll done) (by omega)
          refine ⟨done ++ done', rest, ?_, ?_, ?_⟩
          · rw [List.append_assoc]
            exact (hperm'.append_left done).trans hperm
          · exact (hreg.anti fun b hb => hperm'.mem_iff.mp hb).append hreg'
          · rw [Container.afterAll_append]
            exact hends
    · rw [List.append_nil] at hreg hr'
      refine ⟨done, b :: left, hperm, hreg, ?_⟩
      have hloop : fixpointLoop module (rounds + 1) bs c =
          .error ⟨.expect message, (c.afterAll done).log⟩ := by
        rw [fixpointLoop, hr]
        rfl
      rw [hloop]
      exact .expect List.mem_cons_self hr' hres message

/-- **What the fixpoint does.** It registers providers of the list one at a time, each ready and
resolving at its turn, and ends in one of the ways of `Ends`: it never spins. -/
theorem registerProviders_spec (module : String) (providers : List ProviderBinding)
    (c : Container) :
    ∃ done rest, (done ++ rest).Perm providers ∧ Registered rest c done ∧
      Ends module (c.afterAll done) rest (registerProviders module providers c) :=
  fixpointLoop_spec module _ providers c (Nat.lt_succ_self _)

end Nestrs.Core
