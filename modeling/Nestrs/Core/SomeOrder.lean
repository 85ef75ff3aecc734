import Nestrs.Core.RegisterPhase

/-!
# Provider lists that register in some order

What the order of a list can and cannot repair. A binding that resolves a key of its own list may
be put behind the binding that registers it, unless the two come after each other in a cycle. The
first round is what is left: an ungated binding is built in it, so that whatever it comes after has
to be registered in it too, and a key that is listed and not registered, as an interceptor's is,
holds a binding that may use it back until the next round.

Results:
* `Listable.registers`: a list that is `Listable` has an order in which it registers, from every
  builder that supplies it;
* `exists_perm_registers_iff`: and no other list has one.
-/

namespace Nestrs.Core

open Nestrs.Lib

/-- Each required key that a binding resolves is in the builder, or the list registers it. -/
def Supplied (ps : List ProviderBinding) (c : Container) : Prop :=
  ∀ b ∈ ps, ∀ f ∈ b.reads, f.optional = false →
    c.contains f.key = true ∨ ∃ x ∈ ps, f.key ∈ x.adds

/-- What a list has to be to register in some order. -/
structure Listable (ps : List ProviderBinding) : Prop where
  /-- No binding comes after itself. -/
  acyclic : ∀ b, ¬ Relation.TransGen (ComesAfter ps) b b
  /-- What an ungated binding comes after registers its key. -/
  prompt : ∀ u x, u.ungated = true → Relation.TransGen (ComesAfter ps) u x →
    x.providedKey ∈ x.adds

section List

variable {module : String} {ps qs : List ProviderBinding} {c : Container}

theorem comesAfter_perm (hp : qs.Perm ps) : ComesAfter qs = ComesAfter ps := by
  funext b x
  unfold ComesAfter
  rw [hp.mem_iff, hp.mem_iff]

theorem Supplied.perm (h : Supplied ps c) (hp : qs.Perm ps) : Supplied qs c := by
  intro b hb f hf ho
  simp only [hp.mem_iff] at hb ⊢
  exact h b hb f hf ho

theorem Listable.perm (h : Listable ps) (hp : qs.Perm ps) : Listable qs where
  acyclic := by
    rw [comesAfter_perm hp]
    exact h.acyclic
  prompt := by
    rw [comesAfter_perm hp]
    exact h.prompt

theorem ComesAfter.mem {b x : ProviderBinding} (h : Relation.TransGen (ComesAfter ps) b x) :
    x ∈ ps := by
  cases h with
  | single h => exact h.2.1
  | tail _ h => exact h.2.1

/-- Only its own binding is listed under the key that a binding registers. -/
theorem Admissible.owner (h : Admissible ps c) {x y : ProviderBinding} (hx : x ∈ ps) (hy : y ∈ ps)
    {k : TypeId} (hk : k ∈ x.adds) (hy' : y.providedKey = k) : x = y :=
  List.inj_on_of_nodup_map h.distinct hx hy ((h.own x hx k hk).symm.trans hy'.symm)

/-- A key that a binding declares belongs to one it comes after, if to any of the list. -/
theorem comesAfter_of_declared {b y : ProviderBinding} (hb : b ∈ ps) (hy : y ∈ ps)
    (hk : y.providedKey ∈ b.provider.dependencies ∨
      y.providedKey ∈ b.provider.optionalDependencies) : ComesAfter ps b y := by
  rcases hk with hr | ho
  · obtain ⟨f, hf, hreq, hk⟩ := ProviderBinding.reads_of_dependencies.1 hr
    exact ⟨hb, hy, f, hf, hk, fun hopt => absurd hopt (by simp [hreq])⟩
  · obtain ⟨f, hf, -, hk⟩ := ProviderBinding.reads_of_dependencies.2 ho
    refine ⟨hb, hy, f, hf, hk, fun _ => ?_⟩
    -- an ungated binding declares nothing, so it would not wait for the key
    by_contra hg
    have hready := ready_of_ungated (by simpa using hg) Container.empty [y.providedKey]
    rcases (ready_iff.mp hready).2 _ ho with hc | hnot
    · exact Bool.false_ne_true hc
    · exact hnot List.mem_cons_self

/-- And the other way round, for a binding that the loop waits for. -/
theorem declared_of_comesAfter {b y : ProviderBinding} (hg : b.ungated = false)
    (h : ComesAfter ps b y) :
    y.providedKey ∈ b.provider.dependencies ∨ y.providedKey ∈ b.provider.optionalDependencies := by
  obtain ⟨-, -, f, hf, hk, -⟩ := h
  obtain ⟨hreq, hopt⟩ := ProviderBinding.dependencies_of_reads hg hf
  rw [← hk]
  cases ho : f.optional with
  | false => exact Or.inl (hreq ho)
  | true => exact Or.inr (hopt ho)

/-- One that the loop does not wait for requires the key. -/
theorem required_of_comesAfter {b y : ProviderBinding} (hg : b.ungated = true)
    (h : ComesAfter ps b y) : ∃ f ∈ b.reads, f.optional = false ∧ f.key = y.providedKey := by
  obtain ⟨-, -, f, hf, hk, hopt⟩ := h
  refine ⟨f, hf, ?_, hk⟩
  by_contra ho
  rw [hopt (by simpa using ho)] at hg
  exact Bool.false_ne_true hg

/-! ## An order that registers -/

/-- In a list where nothing comes before what it comes after, what a binding comes after is listed
before it. -/
theorem mem_before_of_comesAfter (hl : Listable ps) (hq : qs.Perm ps)
    (hsorted : qs.Pairwise fun x y => ¬ ComesAfter ps x y)
    {before behind : List ProviderBinding} {b y : ProviderBinding}
    (hsplit : qs = before ++ b :: behind) (h : ComesAfter ps b y) : y ∈ before := by
  have hy : y ∈ before ++ b :: behind := hsplit ▸ hq.mem_iff.mpr h.2.1
  rw [hsplit] at hsorted
  rcases List.mem_append.mp hy with hy | hy
  · exact hy
  · exfalso
    rcases List.mem_cons.mp hy with rfl | hy
    · exact hl.acyclic y (.single h)
    · exact (List.pairwise_cons.mp (List.pairwise_append.mp hsorted).2.1).1 y hy h

/-- What an ungated binding `u` comes after is registered before it in the first round: the
induction is on what is listed before the binding reached from `u`. -/
theorem early_of_comesAfter (h : Admissible ps c) (hs : Supplied ps c) (hl : Listable ps)
    (hq : qs.Perm ps) (hsorted : qs.Pairwise fun x y => ¬ ComesAfter ps x y) {u : ProviderBinding}
    (hu : u.ungated = true) (before : List ProviderBinding) :
    ∀ x behind, qs = before ++ x :: behind → Relation.ReflTransGen (ComesAfter ps) u x →
      ∀ y, ComesAfter ps x y →
        Early c (qs.map ProviderBinding.providedKey) before y.providedKey := by
  induction hn : before.length using Nat.strong_induction_on generalizing before with
  | _ n ih =>
    intro x behind hsplit hux y hxy
    have huy : Relation.TransGen (ComesAfter ps) u y := .tail' hux hxy
    obtain ⟨first, between, rfl⟩ := List.append_of_mem
      (mem_before_of_comesAfter hl hq hsorted hsplit hxy)
    -- `y` is passed when all it declares is there
    have hlt : first.length < n := by
      rw [← hn, List.length_append, List.length_cons]
      omega
    have hdeclared := ih first.length hlt first rfl y (between ++ x :: behind)
      (by rw [hsplit, List.append_assoc, List.cons_append]) huy.to_reflTransGen
    refine .listed (hl.prompt u y hu huy) (fun r hr => ?_) fun o ho hlisted => ?_
    · obtain ⟨f, hf, hreq, rfl⟩ := ProviderBinding.reads_of_dependencies.1 hr
      rcases hs y hxy.2.1 f hf hreq with hc | ⟨z, hz, hk⟩
      · exact .builder hc
      · rw [h.own z hz f.key hk] at hr ⊢
        exact hdeclared z (comesAfter_of_declared hxy.2.1 hz (Or.inl hr))
    · obtain ⟨z, hz, rfl⟩ := List.mem_map.mp hlisted
      exact hdeclared z (comesAfter_of_declared hxy.2.1 (hq.mem_iff.mp hz) (Or.inr ho))

/-- **A listable list has an order in which it registers**, whatever the builder that supplies
it. -/
theorem Listable.registers (hl : Listable ps) :
    ∃ qs : List ProviderBinding, qs.Perm ps ∧ ∀ module c, Admissible ps c → Supplied ps c →
      (registerProviders module qs c).isOk = true := by
  obtain ⟨qs, hq, hsorted⟩ := exists_perm_pairwise hl.acyclic ps
  refine ⟨qs, hq, fun module c h hs => isOk_iff.mpr (registers_of_served ⟨?_, ?_⟩ ?_)⟩
  · exact fun b hb _ => hs.perm hq b hb
  · intro before u behind hsplit hg f hf ho
    have hu : u ∈ ps := hq.mem_iff.mp (by simp [hsplit])
    rcases hs u hu f hf ho with hc | ⟨x, hx, hk⟩
    · exact .builder hc
    · have hkey := h.own x hx f.key hk
      rw [hkey]
      exact early_of_comesAfter h hs hl hq hsorted hg before u behind hsplit .refl x
        ⟨hu, hx, f, hf, hkey, fun hopt => absurd hopt (by simp [ho])⟩
  · rw [comesAfter_perm hq]
    exact hl.acyclic

/-! ## Lists without one -/

theorem Early.supplied {keys : List TypeId} {pre : List ProviderBinding} {k : TypeId}
    (h : Early c keys pre k) : c.contains k = true ∨ ∃ x ∈ pre, k ∈ x.adds := by
  cases h with
  | builder hc => exact Or.inl hc
  | listed hk hreq hopt => exact Or.inr ⟨_, by simp, hk⟩

theorem ServedBy.supplied (h : ServedBy ps c) : Supplied ps c := by
  intro b hb f hf ho
  cases hg : b.ungated with
  | false => exact h.1 b hb hg f hf ho
  | true =>
    obtain ⟨before, behind, rfl⟩ := List.append_of_mem hb
    refine (h.2 before b behind rfl hg f hf ho).supplied.imp_right ?_
    rintro ⟨x, hx, hk⟩
    exact ⟨x, List.mem_append_left _ hx, hk⟩

/-- In a list that registered, a provider comes after what it has to come after. -/
theorem idxOf_lt_of_comesAfter (h : Admissible ps c) {done : List ProviderBinding}
    (hp : done.Perm ps) (hreg : Registered [] c done) {b y : ProviderBinding}
    (hby : ComesAfter ps b y) : done.idxOf y < done.idxOf b := by
  cases hg : b.ungated with
  | false =>
    refine idxOf_lt_of_waits h.distinct hp hreg ⟨hby.1, hby.2.1, h.fresh y hby.2.1, ?_,
      declared_of_comesAfter hg hby⟩
    exact fun z hz hk => (h.own z hz _ hk).symm
  | true =>
    obtain ⟨f, hf, ho, hk⟩ := required_of_comesAfter hg hby
    obtain ⟨hb, hy, -⟩ := hby
    obtain ⟨pre, post, hsplit, hbpre⟩ := List.eq_append_cons_of_mem (hp.mem_iff.mpr hb)
    have hc := (hsplit ▸ hreg).split.2 f hf ho
    rw [Container.contains_afterAll, hk, h.fresh y hy] at hc
    obtain ⟨z, hz, hzk⟩ := hc.resolve_left Bool.false_ne_true
    have hypre : y ∈ pre :=
      h.owner (hp.mem_iff.mp (hsplit ▸ List.mem_append_left _ hz)) hy hzk rfl ▸ hz
    exact idxOf_lt_of_split hsplit hbpre hypre

/-- In a first round without a panic, what an ungated binding comes after is registered before it:
the keys reached are those of a passed part of the list. -/
theorem early_of_ungatedAfter (h : Admissible ps c)
    (hfirst : UngatedAfter c (ps.map ProviderBinding.providedKey) [] ps) {u x : ProviderBinding}
    (hu : u.ungated = true) (hux : Relation.TransGen (ComesAfter ps) u x) :
    ∃ pre, (∀ y ∈ pre, y ∈ ps) ∧
      Early c (ps.map ProviderBinding.providedKey) pre x.providedKey := by
  have hungated : ∀ b y, b.ungated = true → ComesAfter ps b y → ∃ pre, (∀ z ∈ pre, z ∈ ps) ∧
      Early c (ps.map ProviderBinding.providedKey) pre y.providedKey := by
    intro b y hg hby
    obtain ⟨f, hf, ho, hk⟩ := required_of_comesAfter hg hby
    obtain ⟨before, behind, hsplit⟩ := List.append_of_mem hby.1
    refine ⟨before, fun z hz => hsplit ▸ List.mem_append_left _ hz, ?_⟩
    rw [← hk]
    exact hfirst before b behind hsplit hg f hf ho
  induction hux with
  | single hux => exact hungated u _ hu hux
  | @tail b y hub hby ih =>
    cases hg : b.ungated with
    | true => exact hungated b y hg hby
    | false =>
      obtain ⟨pre, hpre, hearly⟩ := ih
      generalize hk : b.providedKey = k at hearly
      cases hearly with
      | builder hc =>
        rw [← hk, h.fresh b hby.1] at hc
        exact absurd hc Bool.false_ne_true
      | @listed pre between z k hadds hreq hopt =>
        obtain rfl := h.owner (hpre z (by simp)) hby.1 hadds hk
        refine ⟨pre, fun y hy => hpre y (List.mem_append_left _ hy), ?_⟩
        rcases declared_of_comesAfter hg hby with hr | ho
        · exact hreq _ hr
        · exact hopt _ ho (List.mem_map.mpr ⟨y, hby.2.1, rfl⟩)

/-- A key of the list that is there in the first round is one that its binding registers. -/
theorem Early.registers (h : Admissible ps c) {keys : List TypeId} {pre : List ProviderBinding}
    (hpre : ∀ y ∈ pre, y ∈ ps) {x : ProviderBinding} (hx : x ∈ ps)
    (he : Early c keys pre x.providedKey) : x.providedKey ∈ x.adds := by
  rcases he.supplied with hc | ⟨y, hy, hk⟩
  · rw [h.fresh x hx] at hc
    exact absurd hc Bool.false_ne_true
  · rwa [h.owner (hpre y hy) hx hk rfl] at hk

theorem listable_of_registers (h : Admissible ps c)
    (hok : (registerProviders module ps c).isOk = true) : Listable ps := by
  obtain ⟨d, hd⟩ := isOk_iff.mp hok
  obtain ⟨done, hp, hreg, -⟩ := newEntries_of_isOk hok
  refine ⟨not_transGen_of_rank done.idxOf fun b y => idxOf_lt_of_comesAfter h hp hreg,
    fun u x hu hux => ?_⟩
  obtain ⟨pre, hpre, he⟩ := early_of_ungatedAfter h (served_of_registers hd).2 hu hux
  exact he.registers h hpre (ComesAfter.mem hux)

/-- **Which lists register in some order**: the supplied and listable ones. -/
theorem exists_perm_registers_iff (h : Admissible ps c) :
    (∃ qs : List ProviderBinding, qs.Perm ps ∧ (registerProviders module qs c).isOk = true) ↔
      Supplied ps c ∧ Listable ps := by
  constructor
  · rintro ⟨qs, hq, hok⟩
    obtain ⟨d, hd⟩ := isOk_iff.mp hok
    exact ⟨(served_of_registers hd).supplied.perm hq.symm,
      (listable_of_registers (h.perm hq) hok).perm hq.symm⟩
  · rintro ⟨hs, hl⟩
    obtain ⟨qs, hq, hregisters⟩ := hl.registers
    exact ⟨qs, hq, hregisters module c h hs⟩

end List

end Nestrs.Core
