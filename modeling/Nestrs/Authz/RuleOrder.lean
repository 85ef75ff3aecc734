import Nestrs.Authz.Ability

/-!
# The order of the statements, and one statement more

`crates/nestrs-authz/src/ability.rs` keeps the rules of a key in the order they were committed
and reads them in loops with early exits: `can` stops at a matching denial, `permitted_fields` at
an unrestricted matching grant, `condition_for` collects grants and denials into two junctions,
and every reader walks the rules of the action before those of `Action::Manage`. None of that
order shows in a result. Each reading is a function of the *set* of rules that apply, so a
reader's result is the same for any two statement lists with the same members, and what one more
statement changes is read off its own rule.

Results:
* `mem_permittedFields`, `permittedFields_eq_all`, `conditionFor_eval`: the field union and the
  pre-filter as statements about the members of the rule list; the latter in all three truth
  values;
* `Ability.SameRules`: two abilities with the same rules under an action and a subject, and the
  equality of every reading on them;
* **`statement_order_and_monotone`**: permuting the statements changes no reading, one more `can`
  takes nothing away, one more `cannot` adds nothing and leaves the fields as they are.
-/

namespace Nestrs.Authz

open Nestrs.Lib Nestrs.Orm

/-- The fields a set lets through are its members. -/
instance : Membership Column FieldSet where
  mem fields c := match fields with
    | .all => True
    | .only cols => c ∈ cols

@[simp] theorem FieldSet.mem_all {c : Column} : c ∈ FieldSet.all := trivial

@[simp] theorem FieldSet.mem_only {c : Column} {cols : Finset Column} :
    c ∈ FieldSet.only cols ↔ c ∈ cols := Iff.rfl

theorem FieldSet.ext_mem {s t : FieldSet} (hall : s = .all ↔ t = .all)
    (h : ∀ c, c ∈ s ↔ c ∈ t) : s = t := by
  cases s with
  | all => exact (hall.mp rfl).symm
  | only cols =>
    cases t with
    | all => exact hall.mpr rfl
    | only cols' =>
      have hcols : cols = cols' := Finset.ext h
      rw [hcols]

namespace Ability

/-! ## The fields of the matching grants -/

/-- The rule is a grant whose predicate accepts the row. -/
def Grants (get : Column → Value) (r : Rule) : Prop :=
  r.inverted = false ∧ r.predicate.matches get = true

theorem permittedLoop_eq_all (get : Column → Value) (rules : List Rule) (acc : Finset Column) :
    permittedLoop get rules acc = .all ↔ ∃ r ∈ rules, Grants get r ∧ r.fields = .all := by
  induction rules generalizing acc with
  | nil => simp [permittedLoop]
  | cons r rules ih =>
    rw [permittedLoop]
    simp only [List.mem_cons, exists_eq_or_imp]
    by_cases hi : r.inverted = true
    · rw [if_pos hi, ih]
      simp [Grants, hi]
    · rw [if_neg hi]
      by_cases hm : r.predicate.matches get = true
      · rw [if_pos hm]
        cases hf : r.fields with
        | all => simp [Grants, hi, hm]
        | only cols => simp [ih]
      · rw [if_neg hm, ih]
        simp [Grants, hm]

theorem mem_permittedLoop (get : Column → Value) (rules : List Rule) (acc : Finset Column)
    (c : Column) :
    c ∈ permittedLoop get rules acc ↔
      c ∈ acc ∨ ∃ r ∈ rules, Grants get r ∧ c ∈ r.fields := by
  induction rules generalizing acc with
  | nil => simp [permittedLoop]
  | cons r rules ih =>
    rw [permittedLoop]
    simp only [List.mem_cons, exists_eq_or_imp]
    by_cases hi : r.inverted = true
    · rw [if_pos hi, ih]
      simp [Grants, hi]
    · rw [if_neg hi]
      have hi' : r.inverted = false := by simpa using hi
      by_cases hm : r.predicate.matches get = true
      · rw [if_pos hm]
        cases hf : r.fields with
        | all => simp [Grants, hi', hm]
        | only cols =>
          rw [ih]
          simp [Grants, hi', hm, or_assoc]
      · rw [if_neg hm, ih]
        simp [Grants, hm]

section Fields

variable {σ : Schema} {ability : Ability} {a : Action} {e : TypeId} {m : Model σ e}

/-- `permitted_fields` is unrestricted iff some matching grant is. -/
theorem permittedFields_eq_all :
    ability.permittedFields a m = .all ↔
      ∃ r ∈ ability.rulesFor a e, Grants m.get r ∧ r.fields = .all :=
  permittedLoop_eq_all _ _ _

/-- A field is permitted iff some matching grant lets it through. -/
theorem mem_permittedFields {c : Column} :
    c ∈ ability.permittedFields a m ↔
      ∃ r ∈ ability.rulesFor a e, Grants m.get r ∧ c ∈ r.fields := by
  unfold permittedFields
  rw [mem_permittedLoop]
  simp

end Fields

/-! ## Abilities with the same rules -/

/-- The rules of `b` for an action on a subject are those of `a`, in whatever order. -/
def SameRules (a b : Ability) (action : Action) (subject : TypeId) : Prop :=
  ∀ r, r ∈ a.rulesFor action subject ↔ r ∈ b.rulesFor action subject

namespace SameRules

variable {x y : Ability} {a : Action} {e : TypeId} {σ : Schema} (h : x.SameRules y a e)

include h

theorem canClass : x.canClass a e = y.canClass a e := by
  rw [Bool.eq_iff_iff, canClass_iff, canClass_iff]
  simp only [h _]

theorem can (m : Model σ e) : x.can a m = y.can a m := by
  rw [Bool.eq_iff_iff, can_iff, can_iff]
  simp only [h _]

theorem permittedFields (m : Model σ e) : x.permittedFields a m = y.permittedFields a m := by
  refine FieldSet.ext_mem ?_ fun c => ?_
  · simp only [permittedFields_eq_all, h _]
  · simp only [mem_permittedFields, h _]

theorem mask (serialize : Model σ e → Option Json) (m : Model σ e) :
    x.mask serialize a m = y.mask serialize a m := by
  unfold Ability.mask
  rw [h.permittedFields m]

theorem maskMany (serialize : Model σ e → Option Json) (ms : List (Model σ e)) :
    x.maskMany serialize a ms = y.maskMany serialize a ms := by
  have hcan : (fun m : Model σ e => x.can a m) = fun m => y.can a m := funext h.can
  have hmask : (fun m : Model σ e => x.mask serialize a m) = fun m => y.mask serialize a m :=
    funext (h.mask serialize)
  unfold Ability.maskMany
  rw [hcan, hmask]

theorem conditionFor_eval (sql : Sql) (get : Column → Value) :
    (x.conditionFor a e).eval sql get = (y.conditionFor a e).eval sql get := by
  have hfilter : ∀ (p : Rule → Bool) (r : Rule),
      r ∈ (x.rulesFor a e).filter p ↔ r ∈ (y.rulesFor a e).filter p := by
    intro p r
    rw [List.mem_filter, List.mem_filter, h r]
  rw [Ability.conditionFor_eval, Ability.conditionFor_eval, Tri.any_map_congr (hfilter _),
    Tri.any_map_congr (hfilter _)]

end SameRules

end Ability

/-! ## Permuting the statements, adding one -/

/-- The statement is read for the action on the subject: it names both, or `manage`. -/
def RuleSpec.Applies (spec : RuleSpec) (a : Action) (e : TypeId) : Prop :=
  (spec.action = a ∨ spec.action = .manage) ∧ spec.subject = e

theorem mem_rulesFor_iff {specs : List RuleSpec} {a : Action} {e : TypeId} {r : Rule} :
    r ∈ (buildAbility specs).rulesFor a e ↔
      ∃ spec ∈ specs, spec.Applies a e ∧ spec.rule = r := by
  have hkey : ∀ b, r ∈ (buildAbility specs).rules b e ↔
      ∃ spec ∈ specs, (spec.action = b ∧ spec.subject = e) ∧ spec.rule = r := by
    intro b
    rw [rules_buildAbility]
    simp only [List.mem_map, List.mem_filter, decide_eq_true_eq, and_assoc, @eq_comm _ b,
      @eq_comm _ e]
  unfold Ability.rulesFor RuleSpec.Applies
  rw [List.mem_append, hkey]
  by_cases ha : a = .manage
  · simp [ha]
  · rw [if_neg ha, hkey]
    constructor
    · rintro (⟨s, hs, ⟨h1, h2⟩, h3⟩ | ⟨s, hs, ⟨h1, h2⟩, h3⟩)
      · exact ⟨s, hs, ⟨.inl h1, h2⟩, h3⟩
      · exact ⟨s, hs, ⟨.inr h1, h2⟩, h3⟩
    · rintro ⟨s, hs, ⟨h1 | h1, h2⟩, h3⟩
      · exact .inl ⟨s, hs, ⟨h1, h2⟩, h3⟩
      · exact .inr ⟨s, hs, ⟨h1, h2⟩, h3⟩

theorem sameRules_of_perm {specs specs' : List RuleSpec} (h : specs.Perm specs') (a : Action)
    (e : TypeId) : (buildAbility specs).SameRules (buildAbility specs') a e := by
  intro r
  simp only [mem_rulesFor_iff, h.mem_iff]

section Append

variable {σ : Schema} {specs : List RuleSpec} {spec : RuleSpec} {a : Action} {e : TypeId}

/-- One more statement adds at most its own rule. -/
theorem mem_rulesFor_append {r : Rule} :
    r ∈ (buildAbility (specs ++ [spec])).rulesFor a e ↔
      r ∈ (buildAbility specs).rulesFor a e ∨ spec.Applies a e ∧ spec.rule = r := by
  simp only [mem_rulesFor_iff, List.mem_append, List.mem_singleton, or_and_right, exists_or,
    exists_eq_left]

/-- A denial read after a `can` statement was there before. -/
theorem mem_rulesFor_of_append_can (hs : spec.inverted = false) {r : Rule}
    (hr : r ∈ (buildAbility (specs ++ [spec])).rulesFor a e) (hi : r.inverted = true) :
    r ∈ (buildAbility specs).rulesFor a e := by
  rcases mem_rulesFor_append.mp hr with h | ⟨-, rfl⟩
  · exact h
  · exact absurd (hs.symm.trans hi) (by simp)

/-- A grant read after a `cannot` statement was there before. -/
theorem mem_rulesFor_of_append_cannot (hs : spec.inverted = true) {r : Rule}
    (hr : r ∈ (buildAbility (specs ++ [spec])).rulesFor a e) (hi : r.inverted = false) :
    r ∈ (buildAbility specs).rulesFor a e := by
  rcases mem_rulesFor_append.mp hr with h | ⟨-, rfl⟩
  · exact h
  · exact absurd (hs.symm.trans hi) (by simp)

theorem can_append_can (hs : spec.inverted = false) {m : Model σ e}
    (h : (buildAbility specs).can a m = true) :
    (buildAbility (specs ++ [spec])).can a m = true := by
  obtain ⟨⟨r, hr, hi, hm⟩, hden⟩ := Ability.can_iff.mp h
  refine Ability.can_iff.mpr ⟨⟨r, mem_rulesFor_append.mpr (.inl hr), hi, hm⟩, ?_⟩
  intro r hr hi
  exact hden r (mem_rulesFor_of_append_can hs hr hi) hi

theorem keeps_append_can (hs : spec.inverted = false) {sql : Sql} {get : Column → Value}
    (h : ((buildAbility specs).conditionFor a e).Keeps sql get) :
    ((buildAbility (specs ++ [spec])).conditionFor a e).Keeps sql get := by
  obtain ⟨⟨r, hr, hi, ht⟩, hden⟩ := Ability.conditionFor_eval_eq_true.mp h
  refine Ability.conditionFor_eval_eq_true.mpr
    ⟨⟨r, mem_rulesFor_append.mpr (.inl hr), hi, ht⟩, ?_⟩
  intro r hr hi
  exact hden r (mem_rulesFor_of_append_can hs hr hi) hi

theorem mem_permittedFields_append {m : Model σ e} {c : Column}
    (h : c ∈ (buildAbility specs).permittedFields a m) :
    c ∈ (buildAbility (specs ++ [spec])).permittedFields a m := by
  obtain ⟨r, hr, hg⟩ := Ability.mem_permittedFields.mp h
  exact Ability.mem_permittedFields.mpr ⟨r, mem_rulesFor_append.mpr (.inl hr), hg⟩

theorem can_of_append_cannot (hs : spec.inverted = true) {m : Model σ e}
    (h : (buildAbility (specs ++ [spec])).can a m = true) :
    (buildAbility specs).can a m = true := by
  obtain ⟨⟨r, hr, hi, hm⟩, hden⟩ := Ability.can_iff.mp h
  refine Ability.can_iff.mpr ⟨⟨r, mem_rulesFor_of_append_cannot hs hr hi, hi, hm⟩, ?_⟩
  intro r hr hi
  exact hden r (mem_rulesFor_append.mpr (.inl hr)) hi

theorem keeps_of_append_cannot (hs : spec.inverted = true) {sql : Sql} {get : Column → Value}
    (h : ((buildAbility (specs ++ [spec])).conditionFor a e).Keeps sql get) :
    ((buildAbility specs).conditionFor a e).Keeps sql get := by
  obtain ⟨⟨r, hr, hi, ht⟩, hden⟩ := Ability.conditionFor_eval_eq_true.mp h
  refine Ability.conditionFor_eval_eq_true.mpr
    ⟨⟨r, mem_rulesFor_of_append_cannot hs hr hi, hi, ht⟩, ?_⟩
  intro r hr hi
  exact hden r (mem_rulesFor_append.mpr (.inl hr)) hi

/-- A denial carries no fields: the union runs over the same grants. -/
theorem permittedFields_append_cannot (hs : spec.inverted = true) (m : Model σ e) :
    (buildAbility (specs ++ [spec])).permittedFields a m =
      (buildAbility specs).permittedFields a m := by
  have hgrant : ∀ p : Rule → Prop,
      (∃ r ∈ (buildAbility (specs ++ [spec])).rulesFor a e, Ability.Grants m.get r ∧ p r) ↔
        ∃ r ∈ (buildAbility specs).rulesFor a e, Ability.Grants m.get r ∧ p r := by
    intro p
    constructor
    · rintro ⟨r, hr, hg, hp⟩
      exact ⟨r, mem_rulesFor_of_append_cannot hs hr hg.1, hg, hp⟩
    · rintro ⟨r, hr, hgp⟩
      exact ⟨r, mem_rulesFor_append.mpr (.inl hr), hgp⟩
  refine FieldSet.ext_mem ?_ fun c => ?_
  · rw [Ability.permittedFields_eq_all, Ability.permittedFields_eq_all, hgrant]
  · rw [Ability.mem_permittedFields, Ability.mem_permittedFields, hgrant]

end Append

/-- **Rule order is irrelevant and rules are monotone.** For statements `specs`, an action and a
subject:
* any permutation of `specs` gives the same class gate, instance check, permitted fields, masked
  value and masked collection, and a pre-filter with the same truth value on every row, `NULL`s
  included;
* appending a `can` keeps every row that `can` or the pre-filter let through and every permitted
  field;
* appending a `cannot` lets through no row that either turned away, and leaves `permitted_fields`
  as it was. -/
theorem statement_order_and_monotone {σ : Schema} (specs : List RuleSpec) (a : Action)
    (e : TypeId) :
    (∀ specs' : List RuleSpec, specs.Perm specs' →
      (buildAbility specs).canClass a e = (buildAbility specs').canClass a e ∧
      (∀ m : Model σ e, (buildAbility specs).can a m = (buildAbility specs').can a m) ∧
      (∀ m : Model σ e, (buildAbility specs).permittedFields a m =
        (buildAbility specs').permittedFields a m) ∧
      (∀ (serialize : Model σ e → Option Json) (m : Model σ e),
        (buildAbility specs).mask serialize a m = (buildAbility specs').mask serialize a m) ∧
      (∀ (serialize : Model σ e → Option Json) (ms : List (Model σ e)),
        (buildAbility specs).maskMany serialize a ms =
          (buildAbility specs').maskMany serialize a ms) ∧
      (∀ (sql : Sql) (m : Model σ e), ((buildAbility specs).conditionFor a e).eval sql m.get =
        ((buildAbility specs').conditionFor a e).eval sql m.get)) ∧
    (∀ spec : RuleSpec, spec.inverted = false →
      (∀ m : Model σ e, (buildAbility specs).can a m = true →
        (buildAbility (specs ++ [spec])).can a m = true) ∧
      (∀ (sql : Sql) (m : Model σ e), ((buildAbility specs).conditionFor a e).Keeps sql m.get →
        ((buildAbility (specs ++ [spec])).conditionFor a e).Keeps sql m.get) ∧
      (∀ (m : Model σ e) (c : Column), c ∈ (buildAbility specs).permittedFields a m →
        c ∈ (buildAbility (specs ++ [spec])).permittedFields a m)) ∧
    (∀ spec : RuleSpec, spec.inverted = true →
      (∀ m : Model σ e, (buildAbility specs).can a m = false →
        (buildAbility (specs ++ [spec])).can a m = false) ∧
      (∀ (sql : Sql) (m : Model σ e),
        ¬ ((buildAbility specs).conditionFor a e).Keeps sql m.get →
        ¬ ((buildAbility (specs ++ [spec])).conditionFor a e).Keeps sql m.get) ∧
      (∀ m : Model σ e, (buildAbility (specs ++ [spec])).permittedFields a m =
        (buildAbility specs).permittedFields a m)) := by
  refine ⟨fun specs' hperm => ?_, fun spec hs => ?_, fun spec hs => ?_⟩
  · have h := sameRules_of_perm hperm a e
    exact ⟨h.canClass, h.can, h.permittedFields, h.mask, h.maskMany,
      fun sql m => h.conditionFor_eval sql m.get⟩
  · exact ⟨fun m => can_append_can hs, fun sql m => keeps_append_can hs,
      fun m c => mem_permittedFields_append⟩
  · refine ⟨fun m hm => ?_, fun sql m hm hk => hm (keeps_of_append_cannot hs hk),
      permittedFields_append_cannot hs⟩
    rw [Bool.eq_false_iff] at hm ⊢
    exact fun hc => hm (can_of_append_cannot hs hc)

/-- The owner's grant and the lock's denial, declared the other way round: the owned row is
accepted all the same. -/
theorem ownerSpecs_reversed_can :
    (buildAbility ownerSpecs).can .read ownedRow =
      (buildAbility ownerSpecs.reverse).can .read ownedRow :=
  ((statement_order_and_monotone ownerSpecs .read 0).1 ownerSpecs.reverse
    (List.reverse_perm ownerSpecs).symm).2.1 ownedRow

end Nestrs.Authz
