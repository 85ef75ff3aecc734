import Nestrs.Core.FixpointOrder
import Nestrs.Lib.Search

/-!
# When the registration fixpoint stalls, and what it says

Two things are promised about the optional dependencies of `#[module]`'s loop
(`crates/nestrs-macros/src/module.rs`). `InjectableBody::opt_keys` says that an optional dependency
"must not gate the register-phase fixpoint the way a required one does"; the comment in `classify`
says that a provider which is not part of a cycle lacks a required dependency nobody supplies.

The loop keeps neither. `__optional_ready` makes a provider wait for a pending supplier of an
optional key, so optional edges close cycles as required ones do, a provider that may use itself
included. The classification then looks at required keys alone: a provider held up by optional
ones lacks nothing, and is listed as one that "needs " nothing.

Results:
* **`registers_iff`**: a list whose required dependencies can be met registers iff no chain of
  waiting, optional edges included, returns to its start, and every ungated binding comes after
  what it resolves;
* **`stall_diagnosed_iff`**: the panic of a stalled round says what is wrong iff each pending
  provider lacks a required key.
-/

namespace Nestrs.Core

open Nestrs.Lib

/-! ## Lists that ought to register -/

/-- `b` requires something the builder does not have and `y` registers. -/
def Requires (c : Container) (ps : List ProviderBinding) (b y : ProviderBinding) : Prop :=
  b ∈ ps ∧ y ∈ ps ∧
    ∃ f ∈ b.reads, f.optional = false ∧ c.contains f.key = false ∧ f.key ∈ y.adds

/-- Distinct keys, and required dependencies that the builder or the list supplies, without a
cycle. -/
structure Satisfiable (c : Container) (ps : List ProviderBinding) : Prop where
  distinct : (ps.map ProviderBinding.providedKey).Nodup
  available : ∀ b ∈ ps, ∀ f ∈ b.reads, f.optional = false →
    c.contains f.key = true ∨ ∃ y ∈ ps, f.key ∈ y.adds
  acyclic : ∀ b, ¬ Relation.TransGen (Requires c ps) b b

/-- `b` is held back until `y` is registered: `y` is listed under a key that `b` declares, required
or optional, and nothing else puts that key into the builder. -/
def Waits (c : Container) (ps : List ProviderBinding) (b y : ProviderBinding) : Prop :=
  b ∈ ps ∧ y ∈ ps ∧ c.contains y.providedKey = false ∧
    (∀ z ∈ ps, y.providedKey ∈ z.adds → z.providedKey = y.providedKey) ∧
    (y.providedKey ∈ b.provider.dependencies ∨ y.providedKey ∈ b.provider.optionalDependencies)

/-- The key is there once the first round has passed `pre`, the keys `keys` being listed: the
builder had it, or a binding of `pre` registers it, with all it declares there at its turn. -/
inductive Early (c : Container) (keys : List TypeId) : List ProviderBinding → TypeId → Prop
  | builder {pre : List ProviderBinding} {k : TypeId} (h : c.contains k = true) : Early c keys pre k
  | listed {pre between : List ProviderBinding} {x : ProviderBinding} {k : TypeId}
      (hk : k ∈ x.adds) (hreq : ∀ r ∈ x.provider.dependencies, Early c keys pre r)
      (hopt : ∀ o ∈ x.provider.optionalDependencies, o ∈ keys → Early c keys pre o) :
      Early c keys (pre ++ x :: between) k

/-- Each ungated binding of `bs` comes after what it requires, `pre` being listed before. -/
def UngatedAfter (c : Container) (keys : List TypeId) (pre bs : List ProviderBinding) : Prop :=
  ∀ before b behind, bs = before ++ b :: behind → b.ungated = true →
    ∀ f ∈ b.reads, f.optional = false → Early c keys (pre ++ before) f.key

/-- A binding that is not ready is of a type built when it is registered, and waits for something
it declares. -/
theorem exists_awaited {c : Container} {keys : List TypeId} {b : ProviderBinding}
    (h : ready c keys b = false) :
    b.provider.eager = true ∧
      ((∃ r ∈ b.provider.dependencies, c.contains r = false) ∨
        ∃ o ∈ b.provider.optionalDependencies, c.contains o = false ∧ o ∈ keys) := by
  have hawaits : (∃ r ∈ b.provider.dependencies, c.contains r = false) ∨
      ∃ o ∈ b.provider.optionalDependencies, c.contains o = false ∧ o ∈ keys := by
    by_contra hnone
    push Not at hnone
    have hr : ready c keys b = true := ready_iff.mpr
      ⟨fun r hr => by simpa using hnone.1 r hr, fun o ho => ?_⟩
    · rw [h] at hr
      exact absurd hr Bool.false_ne_true
    · cases hc : c.contains o with
      | true => exact Or.inl rfl
      | false => exact Or.inr (hnone.2 o ho hc)
  refine ⟨?_, hawaits⟩
  by_contra he
  unfold Provider.dependencies Provider.optionalDependencies at hawaits
  rw [if_neg he, if_neg he] at hawaits
  simp at hawaits

/-- A type built when it is registered is provided under the listed key, if at all. -/
theorem own_of_eager {b : ProviderBinding} (he : b.provider.eager = true) :
    ∀ k ∈ b.adds, b.providedKey = k := by
  intro k hk
  cases b with
  | concrete p =>
    obtain ⟨type, name, fields, kind⟩ := p
    cases kind <;> simp_all [ProviderBinding.adds, ProviderBinding.providedKey,
      ProviderBinding.provider, Provider.eager]
  | dyn p traitName traitKey => exact (List.mem_singleton.mp hk).symm

/-! ## The first round -/

section FirstRound

variable {c : Container} {keys : List TypeId}

theorem Early.mono {pre : List ProviderBinding} {k : TypeId} (h : Early c keys pre k)
    (x : ProviderBinding) : Early c keys (pre ++ [x]) k := by
  cases h with
  | builder h => exact .builder h
  | listed hk hreq hopt =>
    rw [List.append_assoc, List.cons_append]
    exact .listed hk hreq hopt

/-- Passing one more binding adds its keys, if all it declares is there. -/
theorem early_concat {pre : List ProviderBinding} {x : ProviderBinding} {k : TypeId} :
    Early c keys (pre ++ [x]) k ↔ Early c keys pre k ∨
      k ∈ x.adds ∧ (∀ r ∈ x.provider.dependencies, Early c keys pre r) ∧
        ∀ o ∈ x.provider.optionalDependencies, o ∈ keys → Early c keys pre o := by
  constructor
  · intro h
    generalize hl : pre ++ [x] = l at h
    cases h with
    | builder h => exact Or.inl (.builder h)
    | @listed pre' between y k hk hreq hopt =>
      rcases List.eq_nil_or_concat between with rfl | ⟨between, z, rfl⟩
      · obtain ⟨rfl, hx⟩ := List.append_inj' hl rfl
        cases hx
        exact Or.inr ⟨hk, hreq, hopt⟩
      · rw [List.concat_eq_append, ← List.cons_append, ← List.append_assoc] at hl
        obtain ⟨rfl, -⟩ := List.append_inj' hl rfl
        exact Or.inl (.listed hk hreq hopt)
  · rintro (h | ⟨hk, hreq, hopt⟩)
    · exact h.mono x
    · exact .listed hk hreq hopt

/-- **The first round** ends without a panic iff each ungated binding comes after what it
requires. The builder's keys are those of `Early`, at every turn. -/
theorem round_isOk_iff (bs pre : List ProviderBinding) (d : Container)
    (hd : ∀ k, d.contains k = true ↔ Early c keys pre k) :
    (round keys bs d).isOk = true ↔ UngatedAfter c keys pre bs := by
  induction bs generalizing pre d with
  | nil =>
    refine ⟨fun _ before b behind h => ?_, fun _ => rfl⟩
    exact absurd h (by simp)
  | cons b bs ih =>
    -- the rest of the round, once `b` has been passed
    have hcons : UngatedAfter c keys pre (b :: bs) ↔
        (b.ungated = true → ∀ f ∈ b.reads, f.optional = false → Early c keys pre f.key) ∧
          UngatedAfter c keys (pre ++ [b]) bs := by
      constructor
      · intro h
        refine ⟨fun hg f hf ho => by simpa using h [] b bs rfl hg f hf ho, ?_⟩
        rintro before x behind rfl hg f hf ho
        simpa using h (b :: before) x behind rfl hg f hf ho
      · rintro ⟨hb, hbs⟩ before x behind hsplit hg f hf ho
        cases before with
        | nil =>
          cases hsplit
          simpa using hb hg f hf ho
        | cons y before =>
          cases hsplit
          simpa using hbs before x behind rfl hg f hf ho
    have hready : ready d keys b = true ↔
        (∀ r ∈ b.provider.dependencies, Early c keys pre r) ∧
          ∀ o ∈ b.provider.optionalDependencies, o ∈ keys → Early c keys pre o := by
      rw [ready_iff]
      refine and_congr (forall₂_congr fun r _ => hd r) (forall₂_congr fun o _ => ?_)
      rw [hd o]
      exact ⟨fun h hk => h.resolve_right fun hn => hn hk, fun h => by tauto⟩
    by_cases hr : ready d keys b = true
    · by_cases hres : d.Resolves b
      · have hround : round keys (b :: bs) d = round keys bs (d.after b) := by
          rw [round, if_pos hr, (register_eq b d).1 hres]
          rfl
        have hafter : ∀ k, (d.after b).contains k = true ↔ Early c keys (pre ++ [b]) k := by
          intro k
          rw [Container.contains_after, early_concat, hd k]
          exact or_congr_right ⟨fun h => ⟨h, hready.mp hr⟩, And.left⟩
        rw [hround, ih (pre ++ [b]) (d.after b) hafter, hcons]
        exact ⟨fun h => ⟨fun _ f hf ho => (hd f.key).mp (hres f hf ho), h⟩, And.right⟩
      · have hg : b.ungated = true := by
          by_contra hg
          exact hres (resolves_of_ready (by simpa using hg) hr)
        obtain ⟨message, hm⟩ := (register_eq b d).2 hres
        have hround : round keys (b :: bs) d = .error ⟨.expect message, d.log⟩ := by
          rw [round, if_pos hr, hm]
          rfl
        rw [hround, hcons]
        refine ⟨fun h => absurd h Bool.false_ne_true, fun h => absurd ?_ hres⟩
        exact fun f hf ho => (hd f.key).mpr (h.1 hg f hf ho)
    · have hround : (round keys (b :: bs) d).isOk = (round keys bs d).isOk := by
        rw [round, if_neg hr]
        cases round keys bs d <;> rfl
      have hg : b.ungated = false := by
        by_contra hg
        exact hr (ready_of_ungated (by simpa using hg) d keys)
      have hpass : ∀ k, d.contains k = true ↔ Early c keys (pre ++ [b]) k := by
        intro k
        rw [early_concat, hd k]
        exact ⟨Or.inl, fun h => h.resolve_right fun hk => hr (hready.mpr hk.2)⟩
      rw [hround, ih (pre ++ [b]) d hpass, hcons]
      exact ⟨fun h => ⟨fun hg' => absurd hg' (by simp [hg]), h⟩, And.right⟩

end FirstRound

/-- What a round leaves pending was not ready, so the loop waits for it. -/
theorem gated_of_left {keys : List TypeId} {bs left : List ProviderBinding} {c d : Container}
    (h : round keys bs c = .ok (d, left)) : ∀ b ∈ left, b.ungated = false := by
  induction bs generalizing c left with
  | nil =>
    cases h
    exact fun b hb => absurd hb List.not_mem_nil
  | cons b bs ih =>
    by_cases hr : ready c keys b = true
    · rw [round, if_pos hr] at h
      obtain ⟨c', -, h⟩ := bind_eq_ok.mp h
      exact ih h
    · rw [round, if_neg hr] at h
      obtain ⟨⟨c', left'⟩, hround, h⟩ := bind_eq_ok.mp h
      cases h
      refine List.forall_mem_cons.mpr ⟨?_, ih hround⟩
      by_contra hg
      exact hr (ready_of_ungated (by simpa using hg) c keys)

/-- What a round without a panic did to the pending providers. -/
theorem round_eq_ok {pending left : List ProviderBinding} {d d' : Container}
    (h : round (pending.map ProviderBinding.providedKey) pending d = .ok (d', left)) :
    ∃ done, (done ++ left).Perm pending ∧ d' = d.afterAll done ∧
      done.length + left.length = pending.length ∧
      (done = [] → left = pending ∧
        ∀ b ∈ pending, ready d (pending.map ProviderBinding.providedKey) b = false) := by
  rcases round_spec (pending.map ProviderBinding.providedKey) pending d []
      (fun b hb => List.mem_map.mpr ⟨b, by simpa using hb, rfl⟩) with
    ⟨done, left', hperm, -, hr, hnone⟩ | ⟨done, b, left', message, -, -, -, -, hr⟩
  · rw [h] at hr
    cases hr
    exact ⟨done, hperm, rfl, by rw [← List.length_append, hperm.length_eq], hnone⟩
  · rw [h] at hr
    exact nomatch hr

section Loop

variable {ps : List ProviderBinding} {c : Container}

/-- After a first round without a panic, the list registers or the loop stalls. -/
theorem registers_or_stalls (module : String)
    (h : (round (ps.map ProviderBinding.providedKey) ps c).isOk = true) :
    (registerProviders module ps c).isOk = true ∨
      ∃ done rest, (done ++ rest).Perm ps ∧ rest ≠ [] ∧
        (∀ b ∈ rest,
          ready (c.afterAll done) (rest.map ProviderBinding.providedKey) b = false) := by
  obtain ⟨⟨d, left⟩, hround⟩ := isOk_iff.mp h
  have hloop : registerProviders module ps c =
      if left.isEmpty then .ok d
      else if left.length = ps.length then .error ⟨stall module d left, d.log⟩
      else fixpointLoop module ps.length left d := by
    unfold registerProviders
    rw [fixpointLoop, hround]
    rfl
  obtain ⟨done, hperm, rfl, hlen, hnone⟩ := round_eq_ok hround
  by_cases hempty : left = []
  · rw [hloop, if_pos (by simp [hempty])]
    exact Or.inl rfl
  · by_cases hstall : left.length = ps.length
    · have hdone : done = [] := List.eq_nil_of_length_eq_zero (by omega)
      obtain ⟨rfl, hall⟩ := hnone hdone
      refine Or.inr ⟨[], left, .refl _, hempty, fun b hb => ?_⟩
      rw [Container.afterAll_nil]
      exact hall b hb
    · rw [hloop, if_neg (by simpa using hempty), if_neg hstall]
      obtain ⟨done', rest, hperm', -, hends⟩ :=
        fixpointLoop_spec module ps.length left (c.afterAll done) (by omega)
      generalize fixpointLoop module ps.length left (c.afterAll done) = r at hends ⊢
      cases hends with
      | done => exact Or.inl rfl
      | @expect b hb hready hres message =>
        have hg := gated_of_left hround b (hperm'.mem_iff.mp (List.mem_append_right _ hb))
        exact absurd (resolves_of_ready hg hready) hres
      | stall hne hstuck =>
        refine Or.inr ⟨done ++ done', rest, ?_, hne, ?_⟩
        · rw [List.append_assoc]
          exact (hperm'.append_left done).trans hperm
        · rw [Container.afterAll_append]
          exact hstuck

/-- In a stalled list every provider left waits for another one left. -/
theorem exists_waits_of_stuck (h : Satisfiable c ps) {done rest : List ProviderBinding}
    (hp : (done ++ rest).Perm ps)
    (hstuck : ∀ b ∈ rest,
      ready (c.afterAll done) (rest.map ProviderBinding.providedKey) b = false)
    {b : ProviderBinding} (hb : b ∈ rest) : ∃ y ∈ rest, Waits c ps b y := by
  have hin : ∀ y ∈ rest, y ∈ ps := fun y hy => hp.mem_iff.mp (List.mem_append_right _ hy)
  -- a key still missing is registered by a provider left, under the key it is listed with
  have howner : ∀ k, (c.afterAll done).contains k = false →
      c.contains k = false ∧ ∀ z ∈ ps, k ∈ z.adds → z ∈ rest ∧ z.providedKey = k := by
    intro k hk
    have hnone : ¬ (c.contains k = true ∨ ∃ y ∈ done, k ∈ y.adds) := by
      rw [← Container.contains_afterAll, hk]
      exact Bool.false_ne_true
    refine ⟨by simpa using fun hc => hnone (Or.inl hc), fun z hz hkz => ?_⟩
    have hrest : z ∈ rest := by
      rcases List.mem_append.mp (hp.mem_iff.mpr hz) with hdone | hrest
      · exact absurd (Or.inr ⟨z, hdone, hkz⟩) hnone
      · exact hrest
    exact ⟨hrest, own_of_eager (exists_awaited (hstuck z hrest)).1 k hkz⟩
  obtain ⟨-, ⟨r, hr, hc⟩ | ⟨o, ho, hc, hlisted⟩⟩ := exists_awaited (hstuck b hb)
  · obtain ⟨hfresh, hadders⟩ := howner r hc
    obtain ⟨f, hf, hreq, rfl⟩ := ProviderBinding.reads_of_dependencies.1 hr
    rcases h.available b (hin b hb) f hf hreq with havail | ⟨y, hy, hk⟩
    · exact absurd havail (by simp [hfresh])
    · obtain ⟨hyrest, hkey⟩ := hadders y hy hk
      refine ⟨y, hyrest, hin b hb, hy, ?_⟩
      rw [hkey]
      exact ⟨hfresh, fun z hz hkz => (hadders z hz hkz).2, Or.inl hr⟩
  · obtain ⟨hfresh, hadders⟩ := howner o hc
    obtain ⟨y, hy, rfl⟩ := List.mem_map.mp hlisted
    exact ⟨y, hy, hin b hb, hin y hy, hfresh, fun z hz hkz => (hadders z hz hkz).2, Or.inr ho⟩

/-- What stands before the first `b` comes before it. -/
theorem idxOf_lt_of_split {done pre post : List ProviderBinding} {b y : ProviderBinding}
    (hsplit : done = pre ++ b :: post) (hb : b ∉ pre) (hy : y ∈ pre) :
    done.idxOf y < done.idxOf b := by
  rw [hsplit, List.idxOf_append_of_mem hy, List.idxOf_append_of_notMem hb]
  exact Nat.lt_of_lt_of_le (List.idxOf_lt_length_of_mem hy) (Nat.le_add_right _ _)

/-- In a list that registered, a provider comes after those it waits for. -/
theorem idxOf_lt_of_waits (hn : (ps.map ProviderBinding.providedKey).Nodup)
    {done : List ProviderBinding} (hp : done.Perm ps) (hreg : Registered [] c done)
    {b y : ProviderBinding} (hw : Waits c ps b y) : done.idxOf y < done.idxOf b := by
  obtain ⟨hb, hy, hfresh, honly, hdecl⟩ := hw
  obtain ⟨pre, post, hsplit, hbpre⟩ := List.eq_append_cons_of_mem (hp.mem_iff.mpr hb)
  have hready := ready_iff.mp (hsplit ▸ hreg).split.1
  have hypre : y ∈ pre := by
    have hthere : (c.afterAll pre).contains y.providedKey = true → y ∈ pre := by
      intro hc
      rcases (Container.contains_afterAll c pre y.providedKey).mp hc with hc | ⟨z, hz, hk⟩
      · exact absurd hc (by simp [hfresh])
      · have hzps : z ∈ ps := hp.mem_iff.mp (hsplit ▸ List.mem_append_left _ hz)
        exact List.inj_on_of_nodup_map hn hzps hy (honly z hzps hk) ▸ hz
    rcases hdecl with hr | ho
    · exact hthere (hready.1 _ hr)
    · rcases hready.2 _ ho with hc | hnot
      · exact hthere hc
      · have hy' : y ∈ pre ++ b :: post := hsplit ▸ hp.mem_iff.mpr hy
        rcases List.mem_append.mp hy' with hy' | hlater
        · exact hy'
        · exact absurd (List.mem_map.mpr ⟨y, by simpa using hlater, rfl⟩) hnot
  exact idxOf_lt_of_split hsplit hbpre hypre

/-- **When a list that ought to register does**: when no provider waits for itself, through
however many others and along required and optional dependencies, and each ungated binding comes
after what it requires. -/
theorem registers_iff (module : String) (ps : List ProviderBinding) (c : Container)
    (h : Satisfiable c ps) :
    (registerProviders module ps c).isOk = true ↔
      (∀ b, ¬ Relation.TransGen (Waits c ps) b b) ∧
        UngatedAfter c (ps.map ProviderBinding.providedKey) [] ps := by
  have hfirst : (round (ps.map ProviderBinding.providedKey) ps c).isOk = true ↔
      UngatedAfter c (ps.map ProviderBinding.providedKey) [] ps :=
    round_isOk_iff ps [] c fun k => ⟨.builder, fun hk => by
      generalize hl : ([] : List ProviderBinding) = pre at hk
      cases hk with
      | builder hk => exact hk
      | listed => exact absurd hl (by simp)⟩
  constructor
  · intro hok
    obtain ⟨done, hp, hreg, -⟩ := newEntries_of_isOk hok
    refine ⟨not_transGen_of_rank done.idxOf fun b y hw => ?_, hfirst.mp ?_⟩
    · exact idxOf_lt_of_waits h.distinct hp hreg hw
    · obtain ⟨d, hd⟩ := isOk_iff.mp hok
      unfold registerProviders at hd
      rw [fixpointLoop, bind_eq_ok] at hd
      obtain ⟨r, hr, -⟩ := hd
      exact isOk_iff.mpr ⟨r, hr⟩
  · rintro ⟨hac, hungated⟩
    rcases registers_or_stalls module (hfirst.mpr hungated) with
      hok | ⟨done, rest, hp, hne, hstuck⟩
    · exact hok
    · obtain ⟨b, hb, hnone⟩ := exists_waits_for_none hac hne
      obtain ⟨y, hy, hw⟩ := exists_waits_of_stuck h hp hstuck hb
      exact absurd hw (hnone y hy)

end Loop

/-- `Users`, which needs `Repo` and may use the `Cache` listed after it, itself without
dependencies. -/
def cachedUsers : List ProviderBinding :=
  [.concrete ⟨1, "Users", [⟨"repo", 2, "Repo", false⟩, ⟨"cache", 4, "Cache", true⟩], .injectable⟩,
    .concrete ⟨2, "Repo", [], .injectable⟩, .concrete ⟨4, "Cache", [], .injectable⟩]

theorem cachedUsers_waits_for_nothing_twice :
    (∀ b, ¬ Relation.TransGen (Waits Container.empty cachedUsers) b b) ∧
      UngatedAfter Container.empty (cachedUsers.map ProviderBinding.providedKey) []
        cachedUsers := by
  refine (registers_iff "UsersModule" cachedUsers Container.empty
    ⟨by decide, by decide, ?_⟩).mp (by decide)
  have hrank : ∀ b ∈ cachedUsers, ∀ y ∈ cachedUsers,
      (∃ f ∈ b.reads, f.optional = false ∧ Container.empty.contains f.key = false ∧
        f.key ∈ y.adds) → y.provider.fields.length < b.provider.fields.length := by decide
  exact not_transGen_of_rank (fun b => b.provider.fields.length) fun b y hw =>
    hrank b hw.1 y hw.2.1 hw.2.2

/-- `Audit` and `Tracer`, each of which may use the other. -/
def auditAndTracer : List ProviderBinding :=
  [.concrete ⟨6, "Audit", [⟨"tracer", 7, "Tracer", true⟩], .injectable⟩,
    .concrete ⟨7, "Tracer", [⟨"audit", 6, "Audit", true⟩], .injectable⟩]

/-- Nothing is required of either, and they never register. -/
theorem audit_and_tracer_blocked :
    Satisfiable Container.empty auditAndTracer ∧
      (registerProviders "AuditModule" auditAndTracer Container.empty).isOk = false := by
  refine ⟨⟨by decide, by decide, ?_⟩, by decide⟩
  have hnone : ∀ b ∈ auditAndTracer, ¬ ∃ f ∈ b.reads, f.optional = false := by decide
  refine not_transGen_of_rank (fun _ => 0) fun b y hw => ?_
  obtain ⟨hb, -, f, hf, ho, -⟩ := hw
  exact absurd ⟨f, hf, ho⟩ (hnone b hb)

/-! ## What a stalled round says -/

/-- The rounds of a run: `pending` at the start of the round, over the builder `d`. -/
inductive RoundOf (ps : List ProviderBinding) (c : Container) :
    List ProviderBinding → Container → Prop
  | first : RoundOf ps c ps c
  | next {pending left : List ProviderBinding} {d d' : Container} (h : RoundOf ps c pending d)
      (hround : round (pending.map ProviderBinding.providedKey) pending d = .ok (d', left))
      (hleft : left ≠ []) (hprogress : left.length ≠ pending.length) : RoundOf ps c left d'

/-- A required dependency of the provider is neither in the builder nor the key of a pending
provider. -/
def Lacks (c : Container) (pending : List ProviderBinding) (b : ProviderBinding) : Prop :=
  ∃ r ∈ b.provider.dependencies,
    c.contains r = false ∧ r ∉ pending.map ProviderBinding.providedKey

instance (c : Container) (pending : List ProviderBinding) :
    DecidablePred (Lacks c pending) := fun b =>
  inferInstanceAs (Decidable (∃ r ∈ b.provider.dependencies,
    c.contains r = false ∧ r ∉ pending.map ProviderBinding.providedKey))

/-- The labels of the required fields whose keys are not in the builder. -/
def lackedLabels (c : Container) (b : ProviderBinding) : List String :=
  (b.reads.filter fun f => !f.optional && !c.contains f.key).map InjectField.label

/-- `y`'s key is a required dependency of `b`, both pending. -/
def NeedsPending (pending : List ProviderBinding) (b y : ProviderBinding) : Prop :=
  b ∈ pending ∧ y ∈ pending ∧ y.providedKey ∈ b.provider.dependencies

/-- The panic says what is wrong with the pending providers: which of them lack something, and
what; or, if none does, that their required dependencies form a cycle, which they do. -/
structure Diagnosed (module : String) (c : Container) (pending : List ProviderBinding)
    (panic : Panic) : Prop where
  unprovided : (∃ b ∈ pending, Lacks c pending b) →
    panic = .cannotRegister module ((pending.filter fun b => Lacks c pending b).map fun b =>
      b.provider.name ++ " (needs " ++ ", ".intercalate (lackedLabels c b) ++ ")") ∧
    ∀ b ∈ pending, Lacks c pending b → lackedLabels c b ≠ []
  cycle : (∀ b ∈ pending, ¬ Lacks c pending b) →
    (∃ cyclic, panic = .dependencyCycle module cyclic) ∧
      ∃ b, Relation.TransGen (NeedsPending pending) b b

section Diagnosis

variable {c : Container} {pending : List ProviderBinding} {b : ProviderBinding}

/-- `__missing_ids` and `__missing_names` belong to the required fields that find nothing. -/
theorem missing_eq (he : b.provider.eager = true) :
    missing c b.provider =
      (b.reads.filter fun f => !f.optional && !c.contains f.key).map fun f => (f.key, f.label) := by
  unfold missing Provider.dependencies Provider.dependencyNames Provider.depKeys Provider.depNames
  rw [if_pos he, if_pos he, List.zip_map', List.filter_map, List.filter_filter,
    ProviderBinding.reads_of_eager he]
  refine congrArg _ (List.filter_congr fun f _ => ?_)
  exact Bool.and_comm _ _

theorem mem_missing {r : TypeId} :
    (∃ d ∈ missing c b.provider, d.1 = r) ↔
      r ∈ b.provider.dependencies ∧ c.contains r = false := by
  by_cases he : b.provider.eager = true
  · rw [missing_eq he]
    unfold Provider.dependencies Provider.depKeys
    rw [if_pos he, ProviderBinding.reads_of_eager he]
    constructor
    · rintro ⟨d, hd, rfl⟩
      obtain ⟨f, hf, rfl⟩ := List.mem_map.mp hd
      have hf' := List.mem_filter.mp hf
      simp only [Bool.and_eq_true, Bool.not_eq_true'] at hf'
      exact ⟨List.mem_map.mpr ⟨f, List.mem_filter.mpr ⟨hf'.1, by simp [hf'.2.1]⟩, rfl⟩, hf'.2.2⟩
    · rintro ⟨hr, hc⟩
      obtain ⟨f, hf, rfl⟩ := List.mem_map.mp hr
      have hf' := List.mem_filter.mp hf
      exact ⟨_, List.mem_map.mpr
        ⟨f, List.mem_filter.mpr ⟨hf'.1, by simp [hc, by simpa using hf'.2]⟩, rfl⟩, rfl⟩
  · unfold missing Provider.dependencies
    rw [if_neg he]
    simp

/-- `__cyclic` takes the providers that lack something in the builder and nothing else. -/
theorem waitsOnPending_iff :
    waitsOnPending c (pending.map ProviderBinding.providedKey) b = true ↔
      (∃ r ∈ b.provider.dependencies, c.contains r = false) ∧ ¬ Lacks c pending b := by
  unfold waitsOnPending Lacks
  rw [Bool.and_eq_true, List.all_eq_true]
  refine and_congr ?_ ?_
  · constructor
    · intro h
      obtain ⟨d, hd⟩ := List.exists_mem_of_ne_nil (missing c b.provider) (by simpa using h)
      exact ⟨d.1, mem_missing.mp ⟨d, hd, rfl⟩⟩
    · rintro ⟨r, hr, hc⟩
      obtain ⟨d, hd, -⟩ := mem_missing.mpr ⟨hr, hc⟩
      simpa using List.ne_nil_of_mem hd
  · constructor
    · rintro h ⟨r, hr, hc, hnot⟩
      obtain ⟨d, hd, rfl⟩ := mem_missing.mpr ⟨hr, hc⟩
      exact hnot (by simpa using h d hd)
    · intro h d hd
      by_contra hnot
      obtain ⟨hr, hc⟩ := mem_missing.mp ⟨d, hd, rfl⟩
      exact h ⟨d.1, hr, hc, by simpa using hnot⟩

/-- A provider that lacks something is built when it is registered, and the names printed are
those of the fields it lacks: there are some. -/
theorem lackedLabels_of_lacks (h : Lacks c pending b) :
    (missing c b.provider).map Prod.snd = lackedLabels c b ∧ lackedLabels c b ≠ [] := by
  obtain ⟨r, hr, hc, -⟩ := h
  have he : b.provider.eager = true := by
    by_contra he
    unfold Provider.dependencies at hr
    rw [if_neg he] at hr
    exact absurd hr List.not_mem_nil
  have hlabels : (missing c b.provider).map Prod.snd = lackedLabels c b := by
    rw [missing_eq he, List.map_map]
    rfl
  refine ⟨hlabels, ?_⟩
  obtain ⟨d, hd, -⟩ := mem_missing.mpr ⟨hr, hc⟩
  rw [← hlabels]
  exact List.ne_nil_of_mem (List.mem_map_of_mem hd)

/-- When each pending provider lacks a required key, the panic is right: each then waits for
another pending one unless it lacks something nobody provides. -/
theorem diagnosed_of_lacking {module : String} (hne : pending ≠ [])
    (h : ∀ b ∈ pending, ∃ r ∈ b.provider.dependencies, c.contains r = false) :
    Diagnosed module c pending (stall module c pending) := by
  have hfilter : (pending.filter fun b =>
      !waitsOnPending c (pending.map ProviderBinding.providedKey) b) =
        pending.filter fun b => Lacks c pending b := by
    refine List.filter_congr fun b hb => ?_
    rw [Bool.eq_iff_iff, Bool.not_eq_true', ← Bool.not_eq_true, waitsOnPending_iff,
      decide_eq_true_iff]
    exact ⟨fun hn => not_not.mp fun hl => hn ⟨h b hb, hl⟩, fun hl hw => hw.2 hl⟩
  unfold stall
  simp only [hfilter]
  constructor
  · rintro ⟨b, hb, hl⟩
    have hmem : b ∈ pending.filter fun b => Lacks c pending b :=
      List.mem_filter.mpr ⟨hb, by simpa using hl⟩
    have hsome := List.ne_nil_of_mem hmem
    rw [if_pos (by simpa using ⟨b, hb, hl⟩)]
    refine ⟨congrArg _ (List.map_congr_left fun b hb => ?_),
      fun b _ hl => (lackedLabels_of_lacks hl).2⟩
    rw [(lackedLabels_of_lacks (by simpa using (List.mem_filter.mp hb).2)).1]
  · intro hnone
    rw [if_neg (by simpa using hnone)]
    refine ⟨⟨_, rfl⟩, ?_⟩
    by_contra hac
    push Not at hac
    obtain ⟨b, hb, hfree⟩ := exists_waits_for_none hac hne
    obtain ⟨r, hr, hc⟩ := h b hb
    have hlisted : r ∈ pending.map ProviderBinding.providedKey := by
      by_contra hnot
      exact hnone b hb ⟨r, hr, hc, hnot⟩
    obtain ⟨y, hy, rfl⟩ := List.mem_map.mp hlisted
    exact hfree y hy ⟨hb, hy, hr⟩

/-- A pending provider that lacks nothing is listed all the same. -/
theorem lacking_of_diagnosed {module : String}
    (h : Diagnosed module c pending (stall module c pending)) :
    ∀ b ∈ pending, ∃ r ∈ b.provider.dependencies, c.contains r = false := by
  intro b hb
  by_contra hall
  have hlisted : b ∈ pending.filter fun b =>
      !waitsOnPending c (pending.map ProviderBinding.providedKey) b := by
    refine List.mem_filter.mpr ⟨hb, ?_⟩
    rw [Bool.not_eq_true', ← Bool.not_eq_true, waitsOnPending_iff]
    exact fun hw => hall hw.1
  have hsome := List.ne_nil_of_mem hlisted
  have hstall : stall module c pending = .cannotRegister module ((pending.filter fun b =>
      !waitsOnPending c (pending.map ProviderBinding.providedKey) b).map fun b =>
        b.provider.name ++ " (needs " ++
          ", ".intercalate ((missing c b.provider).map Prod.snd) ++ ")") := by
    unfold stall
    refine if_pos ?_
    rw [Bool.not_eq_true', List.isEmpty_eq_false_iff, ne_eq, List.map_eq_nil_iff]
    exact hsome
  rw [hstall] at h
  by_cases hlack : ∃ b ∈ pending, Lacks c pending b
  · -- the list printed is longer than that of the providers that lack something
    have hlen := congrArg List.length (Panic.cannotRegister.inj (h.unprovided hlack).1).2
    rw [List.length_map, List.length_map] at hlen
    have hsub : (pending.filter fun b => Lacks c pending b) = (pending.filter fun b =>
        !waitsOnPending c (pending.map ProviderBinding.providedKey) b).filter
          fun b => Lacks c pending b := by
      rw [List.filter_filter]
      refine List.filter_congr fun x _ => ?_
      by_cases hx : Lacks c pending x
      · have hw : waitsOnPending c (pending.map ProviderBinding.providedKey) x = false := by
          rw [← Bool.not_eq_true, waitsOnPending_iff]
          exact fun hw => hw.2 hx
        simp [hx, hw]
      · simp [hx]
    rw [hsub] at hlen
    have hb' := List.length_filter_eq_length_iff.mp hlen.symm b hlisted
    obtain ⟨r, hr, hc, -⟩ : Lacks c pending b := by simpa using hb'
    exact hall ⟨r, hr, hc⟩
  · push Not at hlack
    obtain ⟨⟨cyclic, hcyclic⟩, -⟩ := h.cycle hlack
    exact nomatch hcyclic

end Diagnosis

/-- The loop goes through the rounds of the run. -/
theorem registerProviders_round {ps pending : List ProviderBinding} {c d : Container}
    (h : RoundOf ps c pending d) (module : String) :
    ∃ rounds, pending.length ≤ rounds ∧
      registerProviders module ps c = fixpointLoop module (rounds + 1) pending d := by
  induction h with
  | first => exact ⟨ps.length, le_refl _, rfl⟩
  | @next pending left d d' h hround hleft hprogress ih =>
    obtain ⟨rounds, hle, heq⟩ := ih
    obtain ⟨done, -, -, hlen, -⟩ := round_eq_ok hround
    obtain ⟨rounds, rfl⟩ : ∃ n, rounds = n + 1 := ⟨rounds - 1, by
      have hpos := List.length_pos_of_ne_nil hleft
      omega⟩
    refine ⟨rounds, by omega, ?_⟩
    rw [heq, fixpointLoop, hround]
    simp only [bind, Except.bind]
    rw [if_neg (by simpa using hleft), if_neg hprogress]

/-- **When the panic of a stall is right.** In every run, at every round that registers nothing
while providers are pending, the loop panics, and the panic says what is wrong iff each pending
provider lacks a required key. -/
theorem stall_diagnosed_iff (module : String) (ps : List ProviderBinding) (c : Container)
    {pending left : List ProviderBinding} {d d' : Container} (h : RoundOf ps c pending d)
    (hround : round (pending.map ProviderBinding.providedKey) pending d = .ok (d', left))
    (hleft : left ≠ []) (hstuck : left.length = pending.length) :
    ∃ panic, registerProviders module ps c = .error ⟨panic, d.log⟩ ∧
      (Diagnosed module d pending panic ↔
        ∀ b ∈ pending, ∃ r ∈ b.provider.dependencies, d.contains r = false) := by
  obtain ⟨rounds, -, heq⟩ := registerProviders_round h module
  obtain ⟨done, -, rfl, hlen, hnone⟩ := round_eq_ok hround
  have hdone : done = [] := List.eq_nil_of_length_eq_zero (by omega)
  obtain ⟨rfl, -⟩ := hnone hdone
  rw [hdone, Container.afterAll_nil] at hround
  refine ⟨stall module d left, ?_, lacking_of_diagnosed, diagnosed_of_lacking hleft⟩
  rw [heq, fixpointLoop, hround]
  simp only [bind, Except.bind]
  rw [if_neg (by simpa using hleft), if_pos trivial]

/-- `Orders` and `Invoices`, each of which requires the other. -/
def ordersAndInvoices : List ProviderBinding :=
  [.concrete ⟨8, "Orders", [⟨"invoices", 9, "Invoices", false⟩], .injectable⟩,
    .concrete ⟨9, "Invoices", [⟨"orders", 8, "Orders", false⟩], .injectable⟩]

theorem orders_and_invoices_diagnosed :
    ∃ panic, registerProviders "BillingModule" ordersAndInvoices Container.empty =
        .error ⟨panic, []⟩ ∧
      Diagnosed "BillingModule" Container.empty ordersAndInvoices panic := by
  have hround : round (ordersAndInvoices.map ProviderBinding.providedKey) ordersAndInvoices
      Container.empty = .ok (Container.empty, ordersAndInvoices) := rfl
  obtain ⟨panic, hrun, hiff⟩ := stall_diagnosed_iff "BillingModule" ordersAndInvoices
    Container.empty .first hround (by decide) rfl
  exact ⟨panic, hrun, hiff.mpr (by decide)⟩

/-- The panic over `Audit` and `Tracer` says that they need nothing, and does not say that they
wait for each other. -/
theorem audit_and_tracer_misdiagnosed :
    (auditAndTracer.map ProviderBinding.providedKey).Nodup ∧
      round (auditAndTracer.map ProviderBinding.providedKey) auditAndTracer Container.empty =
        .ok (Container.empty, auditAndTracer) ∧
      registerProviders "AuditModule" auditAndTracer Container.empty =
        .error ⟨.cannotRegister "AuditModule" ["Audit (needs )", "Tracer (needs )"], []⟩ ∧
      ¬ Diagnosed "AuditModule" Container.empty auditAndTracer
        (.cannotRegister "AuditModule" ["Audit (needs )", "Tracer (needs )"]) := by
  refine ⟨by decide, rfl, rfl, fun h => ?_⟩
  have hnone : ∀ b ∈ auditAndTracer, ¬ Lacks Container.empty auditAndTracer b := by decide
  obtain ⟨⟨cyclic, hcyclic⟩, -⟩ := h.cycle hnone
  exact nomatch hcyclic

end Nestrs.Core
