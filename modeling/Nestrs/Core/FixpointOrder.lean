import Nestrs.Core.Fixpoint

/-!
# Order independence of the registration fixpoint

`#[module]` documents that the order of `providers = [...]` does not matter. The loop of
`Fixpoint.lean` delivers that for every binding it waits for: readiness grows with the providers
done, so all orders register the same providers (`Lib/Saturate.lean`), and a binding sees the
optional suppliers of its own list in all of them.

A trait-object binding of a lazily built type is not waited for. Listed before a provider it
resolves, it panics or misses it; listed after, it finds it.

Results:
* `registers_of_registers`: registering succeeds from any builder that has what the first one had;
* `contains_at_turn`: what a binding finds is fixed by the builder and the list;
* **`fixpoint_order_independent`**.
-/

namespace Nestrs.Core

open Nestrs.Lib

/-- A provider list over a builder: distinct keys, none in the builder yet, and each provider
registers at most its own. -/
structure Admissible (ps : List ProviderBinding) (c : Container) : Prop where
  distinct : (ps.map ProviderBinding.providedKey).Nodup
  fresh : ∀ b ∈ ps, c.contains b.providedKey = false
  own : ∀ b ∈ ps, ∀ k ∈ b.adds, k = b.providedKey

theorem Admissible.perm {ps qs : List ProviderBinding} {c : Container} (hp : qs.Perm ps)
    (h : Admissible ps c) : Admissible qs c where
  distinct := (hp.map _).nodup_iff.mpr h.distinct
  fresh b hb := h.fresh b (hp.mem_iff.mp hb)
  own b hb := h.own b (hp.mem_iff.mp hb)

theorem Admissible.nodup {ps : List ProviderBinding} {c : Container} (h : Admissible ps c) :
    ps.Nodup := h.distinct.of_map

/-- No ungated binding needs a key of its own list. -/
def UngatedNeedNoneOf (ps : List ProviderBinding) : Prop :=
  ∀ b ∈ ps, b.ungated = true → ∀ f ∈ b.reads, f.optional = false →
    ∀ x ∈ ps, x.providedKey ≠ f.key

/-- No ungated binding resolves a key of its own list, required or not. -/
def UngatedReadNoneOf (ps : List ProviderBinding) : Prop :=
  ∀ b ∈ ps, b.ungated = true → ∀ f ∈ b.reads, ∀ x ∈ ps, x.providedKey ≠ f.key

/-! ## Readiness grows -/

/-- `ready`, as a property of the set of providers done. -/
def ReadyFor (c : Container) (ps : List ProviderBinding) (done : Set ProviderBinding)
    (b : ProviderBinding) : Prop :=
  b ∈ ps ∧
    (∀ r ∈ b.provider.dependencies, c.contains r = true ∨ ∃ y ∈ done, r ∈ y.adds) ∧
    ∀ o ∈ b.provider.optionalDependencies,
      c.contains o = true ∨ (∃ y ∈ done, o ∈ y.adds) ∨ ∀ x ∈ ps, x.providedKey = o → x ∈ done

theorem readyFor_mono (c : Container) (ps : List ProviderBinding)
    (S T : Set ProviderBinding) (b : ProviderBinding) (hST : S ⊆ T) (h : ReadyFor c ps S b) :
    ReadyFor c ps T b := by
  have hadds : ∀ k, (∃ y ∈ S, k ∈ y.adds) → ∃ y ∈ T, k ∈ y.adds := by
    rintro k ⟨y, hy, hk⟩
    exact ⟨y, hST hy, hk⟩
  refine ⟨h.1, fun r hr => (h.2.1 r hr).imp_right (hadds r), fun o ho => ?_⟩
  rcases h.2.2 o ho with hc | hd | hall
  · exact Or.inl hc
  · exact Or.inr (Or.inl (hadds o hd))
  · exact Or.inr (Or.inr fun x hx hk => hST (hall x hx hk))

section Runs

variable {ps : List ProviderBinding} {c c' : Container}

theorem run_of_registered {done rest : List ProviderBinding} (hp : (done ++ rest).Perm ps)
    (h : Registered rest c done) : Run (ReadyFor c ps) done := by
  rintro pre b post rfl
  obtain ⟨hready, -⟩ := h.split
  rw [ready_iff] at hready
  refine ⟨hp.mem_iff.mp (by simp), fun r hr => ?_, fun o ho => ?_⟩
  · exact (Container.contains_afterAll c pre r).mp (hready.1 r hr)
  · rcases hready.2 o ho with hc | hn
    · rcases (Container.contains_afterAll c pre o).mp hc with hc | hd
      · exact Or.inl hc
      · exact Or.inr (Or.inl hd)
    · refine Or.inr (Or.inr fun x hx hk => ?_)
      have hx' := hp.mem_iff.mpr hx
      rw [List.append_assoc] at hx'
      rcases List.mem_append.mp hx' with hpre | hlater
      · exact hpre
      · exact absurd (List.mem_map.mpr ⟨x, hlater, hk⟩) hn

/-- A loop that stalled has done everything that can be done. -/
theorem saturated_of_stuck {done rest : List ProviderBinding} (hn : ps.Nodup)
    (hp : (done ++ rest).Perm ps)
    (hstuck : ∀ b ∈ rest,
      ready (c.afterAll done) (rest.map ProviderBinding.providedKey) b = false) :
    Saturated (ReadyFor c ps) done := by
  intro b hb
  by_contra hmem
  have hrest : b ∈ rest := by
    rcases List.mem_append.mp (hp.mem_iff.mpr hb.1) with h | h
    · exact absurd h hmem
    · exact h
  have hdis : ∀ x ∈ done, x ∉ rest := fun x hx hr =>
    (List.nodup_append.mp (hp.nodup_iff.mpr hn)).2.2 x hx x hr rfl
  have hready : ready (c.afterAll done) (rest.map ProviderBinding.providedKey) b = true := by
    rw [ready_iff]
    refine ⟨fun r hr => (Container.contains_afterAll c done r).mpr (hb.2.1 r hr), fun o ho => ?_⟩
    rcases hb.2.2 o ho with hc | hd | hall
    · exact Or.inl ((Container.contains_afterAll c done o).mpr (Or.inl hc))
    · exact Or.inl ((Container.contains_afterAll c done o).mpr (Or.inr hd))
    · refine Or.inr fun hk => ?_
      obtain ⟨x, hx, hxk⟩ := List.mem_map.mp hk
      exact hdis x (hall x (hp.mem_iff.mp (List.mem_append_right _ hx)) hxk) hx
  rw [hstuck b hrest] at hready
  exact absurd hready Bool.false_ne_true

/-- An ungated binding that needs nothing of its list resolves now or never. -/
theorem resolves_afterAll_iff (h : Admissible ps c) (hu : UngatedNeedNoneOf ps)
    {done : List ProviderBinding} (hd : ∀ y ∈ done, y ∈ ps) {b : ProviderBinding} (hb : b ∈ ps)
    (hg : b.ungated = true) : (c.afterAll done).Resolves b ↔ c.Resolves b := by
  refine forall₂_congr fun f hf => forall_congr' fun ho => ?_
  rw [Container.contains_afterAll]
  refine ⟨fun hc => hc.resolve_right ?_, Or.inl⟩
  rintro ⟨y, hy, hk⟩
  exact hu b hb hg f hf ho y (hd y hy) (h.own y (hd y hy) f.key hk).symm

/-- **Success carries over**: to every order of the list, and to every builder that has the
required keys the list does not provide itself. -/
theorem registers_of_registers {module module' : String} (h : Admissible ps c)
    (h' : Admissible ps c') (hu : UngatedNeedNoneOf ps)
    (hsame : ∀ b ∈ ps, ∀ f ∈ b.reads, f.optional = false →
      (∀ x ∈ ps, x.providedKey ≠ f.key) → c.contains f.key = true → c'.contains f.key = true)
    {qs qs' : List ProviderBinding} (hq : qs.Perm ps) (hq' : qs'.Perm ps)
    (hok : ∃ d, registerProviders module qs c = .ok d) :
    ∃ d, registerProviders module' qs' c' = .ok d := by
  obtain ⟨done, rest, hp, hreg, hends⟩ := registerProviders_spec module qs c
  obtain ⟨done', rest', hp', hreg', hends'⟩ := registerProviders_spec module' qs' c'
  -- the first run registered the whole list
  obtain ⟨d, hd⟩ := hok
  rw [hd] at hends
  have hrest : rest = [] := by
    cases hends
    assumption
  subst hrest
  have hdone : done.Perm ps := by simpa using hp.trans hq
  have hall' : (done' ++ rest').Perm ps := hp'.trans hq'
  have hin' : ∀ y ∈ done', y ∈ ps := fun y hy => hall'.mem_iff.mp (List.mem_append_left _ hy)
  -- a key outside the list that the first builder had is in the second one
  have hkey : ∀ b ∈ ps, ∀ r ∈ b.provider.dependencies, c.contains r = true →
      c'.contains r = true := by
    intro b hb r hr hc
    obtain ⟨f, hf, ho, rfl⟩ := ProviderBinding.reads_of_dependencies.1 hr
    refine hsame b hb f hf ho (fun x hx hk => ?_) hc
    rw [← hk, h.fresh x hx] at hc
    exact absurd hc Bool.false_ne_true
  have hrun : Run (ReadyFor c' ps) done := by
    have hrun := run_of_registered (by simpa using hdone) hreg
    intro pre b post hsplit
    obtain ⟨hb, hdep, hopt⟩ := hrun pre b post hsplit
    refine ⟨hb, fun r hr => (hdep r hr).imp_left (hkey b hb r hr), fun o ho => ?_⟩
    rcases hopt o ho with hc | hdone
    · refine Or.inr (Or.inr fun x hx hk => ?_)
      rw [← hk, h.fresh x hx] at hc
      exact absurd hc Bool.false_ne_true
    · exact Or.inr hdone
  cases hr : registerProviders module' qs' c' with
  | ok d' => exact ⟨d', rfl⟩
  | error s =>
    exfalso
    rw [hr] at hends'
    cases hends' with
    | expect hb hready hres message =>
      rename_i b
      have hbps : b ∈ ps := hall'.mem_iff.mp (List.mem_append_right _ hb)
      cases hg : b.ungated with
      | false => exact hres (resolves_of_ready hg hready)
      | true =>
        obtain ⟨pre, post, hsplit⟩ := List.append_of_mem (hdone.mem_iff.mpr hbps)
        have hin : ∀ y ∈ pre, y ∈ ps := fun y hy =>
          hdone.mem_iff.mp (hsplit ▸ List.mem_append_left _ hy)
        rw [hsplit] at hreg
        have hres₀ := (resolves_afterAll_iff h hu hin hbps hg).mp hreg.split.2
        refine hres ((resolves_afterAll_iff h' hu hin' hbps hg).mpr fun f hf ho => ?_)
        exact hsame b hbps f hf ho (hu b hbps hg f hf ho) (hres₀ f hf ho)
    | stall hne hstuck =>
      have hsat := saturated_of_stuck h'.nodup hall' hstuck
      obtain ⟨b, hb⟩ := List.exists_mem_of_ne_nil rest' hne
      have hbdone : b ∈ done :=
        hdone.mem_iff.mpr (hall'.mem_iff.mp (List.mem_append_right _ hb))
      have hbdone' := hrun.subset (readyFor_mono c' ps) hsat done [] (by simp) b hbdone
      exact (List.nodup_append.mp (hall'.nodup_iff.mpr h'.nodup)).2.2 b hbdone' b hb rfl

/-- What a gated binding, or one that reads nothing of its list, finds at its turn: the keys of
the builder and those its list registers. -/
theorem contains_at_turn (h : Admissible ps c) {pre post rest : List ProviderBinding}
    {b : ProviderBinding} (hp : (pre ++ b :: post ++ rest).Perm ps)
    (hreg : Registered rest c (pre ++ b :: post))
    (hu : b.ungated = true → ∀ f ∈ b.reads, ∀ x ∈ ps, x.providedKey ≠ f.key) {f : InjectField}
    (hf : f ∈ b.reads) :
    (c.afterAll pre).contains f.key = true ↔
      c.contains f.key = true ∨ ∃ x ∈ ps, f.key ∈ x.adds := by
  rw [Container.contains_afterAll]
  refine ⟨fun hc => hc.imp_right ?_, fun hc => ?_⟩
  · rintro ⟨y, hy, hk⟩
    exact ⟨y, hp.mem_iff.mp (by simp [hy]), hk⟩
  · rcases hc with hc | ⟨x, hx, hk⟩
    · exact Or.inl hc
    have hxk : x.providedKey = f.key := (h.own x hx f.key hk).symm
    have hready := ready_iff.mp hreg.split.1
    rw [← Container.contains_afterAll]
    cases hg : b.ungated with
    | true => exact absurd hxk (hu hg f hf x hx)
    | false =>
      obtain ⟨hreq, hopt⟩ := ProviderBinding.dependencies_of_reads hg hf
      cases ho : f.optional with
      | false => exact hready.1 f.key (hreq ho)
      | true =>
        rcases hready.2 f.key (hopt ho) with hc | hn
        · exact hc
        · have hx' := hp.mem_iff.mpr hx
          rw [List.append_assoc] at hx'
          rcases List.mem_append.mp hx' with hpre | hlater
          · exact (Container.contains_afterAll c pre f.key).mpr (Or.inr ⟨x, hpre, hk⟩)
          · exact absurd (List.mem_map.mpr ⟨x, hlater, hxk⟩) hn

end Runs

/-! ## Listing in any order -/

/-- The log a run leaves. -/
def logOf : Except Stop Container → List Built
  | .ok c => c.log
  | .error s => s.log

/-- The entries a run of the fixpoint adds to the log. -/
def newEntries (module : String) (ps : List ProviderBinding) (c : Container) : List Built :=
  (logOf (registerProviders module ps c)).drop c.log.length

/-- The keys a binding found when it was built. -/
def Built.present (e : Built) : List TypeId :=
  (e.fields.filter fun field => field.2.isSome).map fun field => field.1.key

/-- **The order of a provider list does not matter.** For every permutation of the list the loop
ends; a run that succeeds registers every provider once, each after the required keys it resolves
and after the providers of its optional ones; and the outcome, and what each binding finds when it
is built, are the same for all permutations. -/
structure OrderIndependent (module : String) (ps : List ProviderBinding) (c : Container) :
    Prop where
  terminates : ∀ qs : List ProviderBinding, qs.Perm ps →
    ∀ s, registerProviders module qs c = .error s → s.panic ≠ .spin
  once : ∀ qs : List ProviderBinding, qs.Perm ps →
    (registerProviders module qs c).isOk = true →
      ((newEntries module qs c).map Built.binding).Perm ps
  ordered : ∀ qs : List ProviderBinding, qs.Perm ps →
    (registerProviders module qs c).isOk = true →
      ∀ pre e post, newEntries module qs c = pre ++ e :: post → ∀ f ∈ e.binding.reads,
        (f.optional = false →
          c.contains f.key = true ∨ ∃ d ∈ pre, f.key ∈ d.binding.adds) ∧
        (f.optional = true → ∀ x ∈ ps, x.providedKey = f.key → ∃ d ∈ pre, d.binding = x)
  outcome : ∀ qs qs' : List ProviderBinding, qs.Perm ps → qs'.Perm ps →
    (registerProviders module qs c).isOk = (registerProviders module qs' c).isOk
  presence : ∀ qs qs' : List ProviderBinding, qs.Perm ps → qs'.Perm ps →
    ∀ e ∈ newEntries module qs c, ∀ e' ∈ newEntries module qs' c,
      e.binding = e'.binding → e.present = e'.present

section AnyOrder

variable {module : String} {ps : List ProviderBinding} {c : Container}

theorem logOf_of_ends {rest : List ProviderBinding} {r : Except Stop Container}
    (h : Ends module c rest r) : logOf r = c.log := by
  cases h <;> rfl

theorem newEntries_spec (module : String) (ps : List ProviderBinding) (c : Container) :
    ∃ done rest, (done ++ rest).Perm ps ∧ Registered rest c done ∧
      Ends module (c.afterAll done) rest (registerProviders module ps c) ∧
      newEntries module ps c = c.entries done := by
  obtain ⟨done, rest, hp, hreg, hends⟩ := registerProviders_spec module ps c
  refine ⟨done, rest, hp, hreg, hends, ?_⟩
  unfold newEntries
  rw [logOf_of_ends hends, Container.log_afterAll, List.drop_left]

/-- A run that succeeds leaves nothing pending. -/
theorem newEntries_of_isOk (hok : (registerProviders module ps c).isOk = true) :
    ∃ done, done.Perm ps ∧ Registered [] c done ∧ newEntries module ps c = c.entries done := by
  obtain ⟨done, rest, hp, hreg, hends, hnew⟩ := newEntries_spec module ps c
  obtain ⟨d, hd⟩ := isOk_iff.mp hok
  rw [hd] at hends
  have hrest : rest = [] := by
    cases hends
    assumption
  subst hrest
  exact ⟨done, by simpa using hp, hreg, hnew⟩

theorem present_entry (b : ProviderBinding) (d : Container) :
    Built.present ⟨b, b.reads.map fun f => (f, d.get f.key)⟩ =
      (b.reads.filter fun f => d.contains f.key).map InjectField.key := by
  simp [Built.present, List.filter_map, Function.comp_def, Container.get, Container.contains]

theorem stall_ne_spin (rest : List ProviderBinding) : stall module c rest ≠ .spin := by
  unfold stall
  dsimp only
  split <;> simp

/-- When ungated bindings resolve nothing of their list, its order does not matter. -/
theorem orderIndependent_of_ungated (h : Admissible ps c) (hu : UngatedReadNoneOf ps) :
    OrderIndependent module ps c where
  terminates qs hq s hs := by
    obtain ⟨done, rest, -, -, hends⟩ := registerProviders_spec module qs c
    rw [hs] at hends
    cases hends with
    | expect => simp
    | stall => exact stall_ne_spin rest
  once qs hq hok := by
    obtain ⟨done, hp, -, hnew⟩ := newEntries_of_isOk hok
    rw [hnew, Container.binding_entries]
    exact hp.trans hq
  ordered qs hq hok pre e post hsplit f hf := by
    obtain ⟨done, hp, hreg, hnew⟩ := newEntries_of_isOk hok
    rw [hnew] at hsplit
    obtain ⟨bpre, b, bpost, rfl, rfl, rfl⟩ := Container.split_of_entries hsplit
    obtain ⟨hready, hres⟩ := hreg.split
    have hb : b ∈ ps := hq.mem_iff.mp (hp.mem_iff.mp (by simp))
    have hpre : ∀ y ∈ bpre, ∃ d ∈ c.entries bpre, d.binding = y := fun y hy => by
      have hmem : y ∈ (c.entries bpre).map Built.binding := by
        rw [Container.binding_entries]
        exact hy
      exact List.mem_map.mp hmem
    constructor
    · intro ho
      refine ((Container.contains_afterAll c bpre f.key).mp (hres f hf ho)).imp_right ?_
      rintro ⟨y, hy, hk⟩
      obtain ⟨d, hd, rfl⟩ := hpre y hy
      exact ⟨d, hd, hk⟩
    · intro ho x hx hk
      cases hg : b.ungated with
      | true => exact absurd hk (hu b hb hg f hf x hx)
      | false =>
        refine hpre x ?_
        have hx' : x ∈ bpre ++ b :: bpost := hp.mem_iff.mpr (hq.mem_iff.mpr hx)
        rcases List.mem_append.mp hx' with hx' | hlater
        · exact hx'
        have hopt := (ProviderBinding.dependencies_of_reads hg hf).2 ho
        rcases (ready_iff.mp hready).2 f.key hopt with hc | hn
        · -- the key is there, so one of the list registered it, and that is `x`
          rcases (Container.contains_afterAll c bpre f.key).mp hc with hc | ⟨y, hy, hyk⟩
          · rw [← hk, h.fresh x hx] at hc
            exact absurd hc Bool.false_ne_true
          · have hyps : y ∈ ps := hq.mem_iff.mp (hp.mem_iff.mp (List.mem_append_left _ hy))
            have hyx : y = x := List.inj_on_of_nodup_map h.distinct hyps hx
              ((h.own y hyps f.key hyk).symm.trans hk.symm)
            exact hyx ▸ hy
        · exact absurd (List.mem_map.mpr ⟨x, by simpa using hlater, hk⟩) hn
  outcome qs qs' hq hq' := by
    have hneed : UngatedNeedNoneOf ps := fun b hb hg f hf _ => hu b hb hg f hf
    have hiff : ∀ l l' : List ProviderBinding, l.Perm ps → l'.Perm ps →
        (registerProviders module l c).isOk = true →
        (registerProviders module l' c).isOk = true := fun l l' hl hl' hok =>
      isOk_iff.mpr (registers_of_registers h h hneed (fun _ _ _ _ _ _ hc => hc) hl hl'
        (isOk_iff.mp hok))
    exact Bool.eq_iff_iff.mpr ⟨hiff qs qs' hq hq', hiff qs' qs hq' hq⟩
  presence qs qs' hq hq' e he e' he' hbind := by
    obtain ⟨done, rest, hp, hreg, -, hnew⟩ := newEntries_spec module qs c
    obtain ⟨done', rest', hp', hreg', -, hnew'⟩ := newEntries_spec module qs' c
    rw [hnew] at he
    rw [hnew'] at he'
    obtain ⟨pre, b, post, rfl, rfl⟩ := Container.mem_entries he
    obtain ⟨pre', b', post', rfl, rfl⟩ := Container.mem_entries he'
    simp only at hbind
    subst hbind
    have hb : b ∈ ps := (hp.trans hq).mem_iff.mp (by simp)
    rw [present_entry, present_entry]
    refine congrArg _ (List.filter_congr fun f hf => ?_)
    exact Bool.eq_iff_iff.mpr
      ((contains_at_turn h (hp.trans hq) hreg (hu b hb) hf).trans
        (contains_at_turn h (hp'.trans hq') hreg' (hu b hb) hf).symm)

/-- An ungated binding at the head of the list is registered first. -/
theorem newEntries_cons_of_ungated {b : ProviderBinding} {bs : List ProviderBinding}
    (hg : b.ungated = true) (hok : (registerProviders module (b :: bs) c).isOk = true) :
    ∃ post, newEntries module (b :: bs) c =
      ⟨b, b.reads.map fun f => (f, c.get f.key)⟩ :: post := by
  -- whatever follows, the log starts with `b`'s entry
  have hlog : ∀ r : Except Stop Container, ∀ tail, logOf r = (c.after b).log ++ tail →
      (logOf r).drop c.log.length = ⟨b, b.reads.map fun f => (f, c.get f.key)⟩ :: tail := by
    intro r tail hr
    rw [hr]
    simp [Container.after]
  unfold newEntries
  unfold registerProviders at hok ⊢
  have hready := ready_of_ungated hg c ((b :: bs).map ProviderBinding.providedKey)
  by_cases hres : c.Resolves b
  · rcases round_spec ((b :: bs).map ProviderBinding.providedKey) bs (c.after b) []
        (fun x hx => List.mem_map.mpr ⟨x, List.mem_cons_of_mem b (by simpa using hx), rfl⟩) with
      ⟨done, left, hp, -, hr, -⟩ | ⟨done, b', left, message, -, -, -, -, hr⟩
    · have hloop : fixpointLoop module ((b :: bs).length + 1) (b :: bs) c =
          if left.isEmpty then .ok ((c.after b).afterAll done)
          else if left.length = (b :: bs).length then
            .error ⟨stall module ((c.after b).afterAll done) left,
              ((c.after b).afterAll done).log⟩
          else fixpointLoop module (b :: bs).length left ((c.after b).afterAll done) := by
        rw [fixpointLoop, round, if_pos hready, (register_eq b c).1 hres]
        simp only [bind, Except.bind, hr]
      have hlen := hp.length_eq
      rw [List.length_append] at hlen
      rw [hloop]
      split
      · exact ⟨_, hlog _ _ (Container.log_afterAll _ _)⟩
      · split
        · exact ⟨_, hlog _ _ (Container.log_afterAll _ _)⟩
        · obtain ⟨done', rest, -, -, hends⟩ := fixpointLoop_spec module (b :: bs).length left
            ((c.after b).afterAll done) (by rw [List.length_cons]; omega)
          refine ⟨_, hlog _ ((c.after b).entries (done ++ done')) ?_⟩
          rw [logOf_of_ends hends, ← Container.afterAll_append, Container.log_afterAll]
    · rw [fixpointLoop, round, if_pos hready, (register_eq b c).1 hres] at hok
      simp only [bind, Except.bind, hr] at hok
      exact absurd hok Bool.false_ne_true
  · obtain ⟨message, hm⟩ := (register_eq b c).2 hres
    rw [fixpointLoop, round, if_pos hready, hm] at hok
    exact absurd hok Bool.false_ne_true

/-- **When the order of a provider list does not matter.** It does not when no ungated binding
resolves a key of its list; and when some order of the list registers, only then. -/
theorem fixpoint_order_independent (module : String) (ps : List ProviderBinding) (c : Container)
    (h : Admissible ps c) :
    (UngatedReadNoneOf ps → OrderIndependent module ps c) ∧
      ((∃ qs : List ProviderBinding, qs.Perm ps ∧
          (registerProviders module qs c).isOk = true) →
        OrderIndependent module ps c → UngatedReadNoneOf ps) := by
  refine ⟨orderIndependent_of_ungated h, ?_⟩
  rintro ⟨qs, hq, hok⟩ hind b hb hg f hf x hx hk
  have hperm : (b :: ps.erase b).Perm ps := (List.perm_cons_erase hb).symm
  have hok' : (registerProviders module (b :: ps.erase b) c).isOk = true := by
    rw [← hind.outcome qs _ hq hperm]
    exact hok
  obtain ⟨post, hnew⟩ := newEntries_cons_of_ungated hg hok'
  obtain ⟨hreq, hopt⟩ := hind.ordered _ hperm hok' [] _ post hnew f hf
  cases ho : f.optional with
  | true =>
    obtain ⟨d, hd, -⟩ := hopt ho x hx hk
    exact absurd hd List.not_mem_nil
  | false =>
    rcases hreq ho with hc | ⟨d, hd, -⟩
    · rw [← hk, h.fresh x hx] at hc
      exact absurd hc Bool.false_ne_true
    · exact absurd hd List.not_mem_nil

/-- `Repo`, an injectable without dependencies. -/
def repoBinding : ProviderBinding := .concrete ⟨2, "Repo", [], .injectable⟩

/-- `Users`, an injectable that needs `Repo` and may use `Cache`. -/
def usersBinding : ProviderBinding :=
  .concrete ⟨1, "Users", [⟨"repo", 2, "Repo", false⟩, ⟨"cache", 4, "Cache", true⟩], .injectable⟩

/-- `Session as dyn SessionApi`, where `Session` is request-scoped and needs `Repo`. -/
def sessionBinding : ProviderBinding :=
  .dyn ⟨3, "Session", [⟨"repo", 2, "Repo", false⟩], .requestScoped⟩ "SessionApi" 5

theorem users_repo_orderIndependent :
    OrderIndependent "UsersModule" [usersBinding, repoBinding] Container.empty :=
  (fixpoint_order_independent "UsersModule" [usersBinding, repoBinding] Container.empty
    ⟨by decide, by decide, by decide⟩).1 (by unfold UngatedReadNoneOf; decide)

/-- Listed before `Repo`, the request-scoped session panics; listed after it, it registers. -/
theorem session_order_matters :
    Admissible [sessionBinding, repoBinding] Container.empty ∧
      ¬ OrderIndependent "AppModule" [sessionBinding, repoBinding] Container.empty := by
  refine ⟨⟨by decide, by decide, by decide⟩, fun h => ?_⟩
  have hout := h.outcome [sessionBinding, repoBinding] [repoBinding, sessionBinding] (.refl _)
    (.swap _ _ _)
  exact absurd hout (by decide)

end AnyOrder

end Nestrs.Core
