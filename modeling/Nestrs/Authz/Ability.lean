import Nestrs.Authz.Predicate
import Mathlib.Data.Finset.Basic
import Mathlib.Data.Finset.Dedup
import Mathlib.Data.Finset.Lattice.Basic

/-!
# The ability of one actor and its readings

Model of `crates/nestrs-authz/src/ability.rs` and `builder.rs`. An `Ability` is the map from
`(Action, TypeId)` to the rules declared under that key; `RuleSpec::drop` commits one statement,
`buildAbility` a whole sequence of them. Four functions read it:

* `canClass`, the class gate: some grant exists;
* `conditionFor`, the query pre-filter: the grants' conditions, less the denials';
* `can`, the instance check: some grant matches the row and no denial does;
* `permittedFields` (with `mask` and `maskMany`), the fields of the grants that match.

A rule is stored under `TypeId::of::<E>()` together with its `Predicate<E>`, so the downcast of
`predicate_of` cannot fail; the model keeps the predicate as it is.

Results:
* `can_iff`, `conditionFor_eval` and `conditionFor_eval_eq_true`: both readings of the rule list
  as one statement about its members, whatever their order;
* **`readings_ordered`**: a row the pre-filter keeps is one `can` accepts, and one `can` accepts
  passes the class gate, `NULL`s included; without `NULL` the pre-filter and `can` are the same.
-/

namespace Nestrs.Authz

open Nestrs.Lib Nestrs.Orm

/-- `Action`: the verbs of an ability; `manage` is the wildcard. -/
inductive Action where
  | read
  | create
  | update
  | delete
  | manage
deriving DecidableEq, Repr

/-- `FieldSet`: the columns a rule lets through. -/
inductive FieldSet where
  | all
  | only (cols : Finset Column)
deriving DecidableEq

/-- `serde_json::Value`. -/
inductive Json where
  | null
  | bool (b : Bool)
  | number (text : String)
  | string (s : String)
  | array (items : List Json)
  | object (map : List (String × Json))

/-- `Rule`: one grant or denial, with its condition precomputed. -/
structure Rule where
  inverted : Bool
  condition : Condition
  predicate : Predicate
  fields : FieldSet

/-- `Ability`: the rules under each `(Action, TypeId)` key, in the order they were added. -/
structure Ability where
  rules : Action → TypeId → List Rule

namespace Ability

/-- `Ability::default`. -/
def empty : Ability := ⟨fun _ _ => []⟩

/-- `Ability::add_rule`. -/
def addRule (ability : Ability) (action : Action) (subject : TypeId) (rule : Rule) : Ability :=
  ⟨fun a e => if a = action ∧ e = subject then ability.rules a e ++ [rule]
    else ability.rules a e⟩

/-- `Ability::rules_for`: the rules of the action, then those of `manage`. -/
def rulesFor (ability : Ability) (action : Action) (subject : TypeId) : List Rule :=
  ability.rules action subject ++
    if action = .manage then [] else ability.rules .manage subject

/-- `Ability::can_class`. -/
def canClass (ability : Ability) (action : Action) (subject : TypeId) : Bool :=
  (ability.rulesFor action subject).any fun rule => !rule.inverted

/-- One turn of the loop of `condition_for` over the accumulators `(grant, deny)`. -/
def collect (acc : Condition × Condition) (rule : Rule) : Condition × Condition :=
  if rule.inverted then (acc.1, acc.2.add rule.condition.expr)
  else (acc.1.add rule.condition.expr, acc.2)

/-- `Ability::condition_for`. -/
def conditionFor (ability : Ability) (action : Action) (subject : TypeId) : Condition :=
  let (grant, deny) :=
    (ability.rulesFor action subject).foldl collect (Condition.any, Condition.any)
  if grant.isEmpty then Condition.all.add (.simpleExpr .oneEqZero)
  else
    let out := Condition.all.add grant.expr
    if !deny.isEmpty then out.add deny.not.expr else out

/-- The loop of `can`: a matching denial returns at once. -/
def canLoop (get : Column → Value) : List Rule → Bool → Bool
  | [], allowed => allowed
  | rule :: rules, allowed =>
    if rule.predicate.matches get then
      if rule.inverted then false else canLoop get rules true
    else canLoop get rules allowed

/-- `Ability::can`. -/
def can {σ : Schema} (ability : Ability) (action : Action) {subject : TypeId}
    (model : Model σ subject) : Bool :=
  canLoop model.get (ability.rulesFor action subject) false

/-- The loop of `permitted_fields`: an unrestricted matching grant returns at once. -/
def permittedLoop (get : Column → Value) : List Rule → Finset Column → FieldSet
  | [], acc => .only acc
  | rule :: rules, acc =>
    if rule.inverted then permittedLoop get rules acc
    else if rule.predicate.matches get then
      match rule.fields with
      | .all => .all
      | .only cols => permittedLoop get rules (acc ∪ cols)
    else permittedLoop get rules acc

/-- `Ability::permitted_fields`. -/
def permittedFields {σ : Schema} (ability : Ability) (action : Action) {subject : TypeId}
    (model : Model σ subject) : FieldSet :=
  permittedLoop model.get (ability.rulesFor action subject) ∅

section Mask

variable {σ : Schema} {subject : TypeId} (serialize : Model σ subject → Option Json)

/-- `Ability::mask`: serialize (`None` when it fails) and keep the permitted keys of an object. -/
def mask (ability : Ability) (action : Action) (model : Model σ subject) : Json :=
  let json := (serialize model).getD .null
  match ability.permittedFields action model, json with
  | .only allowed, .object map => .object (map.filter fun kv => kv.1 ∈ allowed)
  | _, json => json

/-- `Ability::mask_many`: drop the instances `can` rejects, mask the others. -/
def maskMany (ability : Ability) (action : Action) (models : List (Model σ subject)) :
    List Json :=
  (models.filter fun model => ability.can action model).map fun model =>
    ability.mask serialize action model

end Mask

end Ability

/-! ## Building an ability -/

/-- `RuleSpec`: one statement, as it stands when it is dropped. -/
structure RuleSpec where
  action : Action
  subject : TypeId
  inverted : Bool
  predicate : Predicate
  fields : FieldSet

namespace RuleSpec

/-- `RuleSpec::new`. -/
def new (action : Action) (subject : TypeId) (inverted : Bool) : RuleSpec where
  action := action
  subject := subject
  inverted := inverted
  predicate := .always
  fields := .all

/-- `AbilityBuilder::can`. -/
def can (action : Action) (subject : TypeId) : RuleSpec := new action subject false

/-- `AbilityBuilder::cannot`. -/
def cannot (action : Action) (subject : TypeId) : RuleSpec := new action subject true

/-- `RuleSpec::when`. -/
def when (spec : RuleSpec) (predicate : Predicate) : RuleSpec := { spec with predicate }

/-- `RuleSpec::fields`. -/
def withFields (spec : RuleSpec) (columns : List Column) : RuleSpec :=
  { spec with fields := .only columns.toFinset }

/-- The rule a statement commits. -/
def rule (spec : RuleSpec) : Rule where
  inverted := spec.inverted
  condition := spec.predicate.toCondition
  predicate := spec.predicate
  fields := spec.fields

/-- `RuleSpec::drop`. -/
def drop (spec : RuleSpec) (ability : Ability) : Ability :=
  ability.addRule spec.action spec.subject spec.rule

/-- The rule values of the statement have the variants of its subject's columns. -/
def WellTyped (σ : Schema) (spec : RuleSpec) : Prop := spec.predicate.WellTyped (σ spec.subject)

end RuleSpec

/-- The ability a sequence of statements builds (`AbilityBuilder::build`). -/
def buildAbility (specs : List RuleSpec) : Ability :=
  specs.foldl (fun ability spec => spec.drop ability) Ability.empty

theorem rules_foldl_drop (specs : List RuleSpec) (ability : Ability) (a : Action) (e : TypeId) :
    (specs.foldl (fun ability spec => spec.drop ability) ability).rules a e =
      ability.rules a e ++
        (specs.filter fun s => a = s.action ∧ e = s.subject).map RuleSpec.rule := by
  induction specs generalizing ability with
  | nil => simp
  | cons spec specs ih =>
    rw [List.foldl_cons, ih]
    by_cases h : a = spec.action ∧ e = spec.subject
    · simp [RuleSpec.drop, Ability.addRule, h]
    · simp [RuleSpec.drop, Ability.addRule, h]

/-- The rules under a key are those of its statements, in order. -/
theorem rules_buildAbility (specs : List RuleSpec) (a : Action) (e : TypeId) :
    (buildAbility specs).rules a e =
      (specs.filter fun s => a = s.action ∧ e = s.subject).map RuleSpec.rule := by
  unfold buildAbility
  rw [rules_foldl_drop]
  simp [Ability.empty]

/-- Every rule read for a key was committed by a statement about the same subject. -/
theorem mem_rulesFor_buildAbility {specs : List RuleSpec} {a : Action} {e : TypeId} {r : Rule}
    (h : r ∈ (buildAbility specs).rulesFor a e) :
    ∃ spec ∈ specs, spec.subject = e ∧ r = spec.rule := by
  have hkey : ∀ b, r ∈ (buildAbility specs).rules b e →
      ∃ spec ∈ specs, spec.subject = e ∧ r = spec.rule := by
    intro b hb
    rw [rules_buildAbility] at hb
    obtain ⟨spec, hs, rfl⟩ := List.mem_map.mp hb
    have hs' := List.mem_filter.mp hs
    exact ⟨spec, hs'.1, (of_decide_eq_true hs'.2).2.symm, rfl⟩
  unfold Ability.rulesFor at h
  rcases List.mem_append.mp h with h | h
  · exact hkey a h
  · by_cases ha : a = .manage
    · rw [if_pos ha] at h
      exact absurd h List.not_mem_nil
    · rw [if_neg ha] at h
      exact hkey .manage h

/-! ## The readings as statements about the rule list -/

namespace Ability

theorem canClass_iff {ability : Ability} {a : Action} {e : TypeId} :
    ability.canClass a e = true ↔ ∃ r ∈ ability.rulesFor a e, r.inverted = false := by
  unfold canClass
  simp [List.any_eq_true]

theorem canLoop_iff (get : Column → Value) (rules : List Rule) (allowed : Bool) :
    canLoop get rules allowed = true ↔
      (allowed = true ∨ ∃ r ∈ rules, r.inverted = false ∧ r.predicate.matches get = true) ∧
        ∀ r ∈ rules, r.inverted = true → r.predicate.matches get = false := by
  induction rules generalizing allowed with
  | nil => simp [canLoop]
  | cons r rules ih =>
    rw [canLoop, List.forall_mem_cons]
    by_cases hm : r.predicate.matches get = true
    · rw [if_pos hm]
      cases hi : r.inverted with
      | true => simp [hm]
      | false => simp [ih, hi, hm]
    · rw [if_neg hm, ih]
      simp [hm]

/-- `can`: some grant matches the row and no denial does. -/
theorem can_iff {σ : Schema} {ability : Ability} {a : Action} {e : TypeId} {m : Model σ e} :
    ability.can a m = true ↔
      (∃ r ∈ ability.rulesFor a e, r.inverted = false ∧ r.predicate.matches m.get = true) ∧
        ∀ r ∈ ability.rulesFor a e, r.inverted = true → r.predicate.matches m.get = false := by
  unfold can
  rw [canLoop_iff]
  simp

theorem collect_foldl (rules : List Rule) (acc : Condition × Condition) :
    rules.foldl collect acc =
      ((rules.filter fun r => !r.inverted).foldl (fun c r => c.add r.condition.expr) acc.1,
        (rules.filter fun r => r.inverted).foldl (fun c r => c.add r.condition.expr) acc.2) := by
  induction rules generalizing acc with
  | nil => rfl
  | cons r rules ih =>
    rw [List.foldl_cons, ih]
    cases hi : r.inverted <;> simp [collect, hi]

theorem isEmpty_foldl_add (rules : List Rule) :
    (rules.foldl (fun c r => c.add r.condition.expr) Condition.any).isEmpty =
      rules.isEmpty := by
  rw [conditions_foldl_add]
  cases rules <;> simp [Condition.isEmpty, Condition.any]

section Filter

variable {sql : Sql} {get : Column → Value}

/-- `condition_for` on a row: some grant holds and no denial does, in three-valued logic. Without
a grant the first half is the empty disjunction, which is the `1 = 0` of the source. -/
theorem conditionFor_eval (ability : Ability) (a : Action) (e : TypeId) :
    (ability.conditionFor a e).eval sql get =
      (Tri.any (((ability.rulesFor a e).filter fun r => !r.inverted).map fun r =>
        r.condition.eval sql get)).and
      (Tri.any (((ability.rulesFor a e).filter fun r => r.inverted).map fun r =>
        r.condition.eval sql get)).not := by
  unfold conditionFor
  rw [collect_foldl]
  simp only [isEmpty_foldl_add]
  set grants := (ability.rulesFor a e).filter fun r => !r.inverted
  set denials := (ability.rulesFor a e).filter fun r => r.inverted
  by_cases hg : grants = []
  · rw [if_pos (by simp [hg]), eval_all_add, eval_simpleExpr, hg]
    rfl
  · rw [if_neg (by simpa using hg)]
    by_cases hd : denials = []
    · rw [if_neg (by simp [hd]), eval_all_add, eval_expr, eval_foldl_add_any, hd]
      cases Tri.any (grants.map fun r => r.condition.eval sql get) <;> rfl
    · rw [if_pos (by simpa using hd), eval_all_add_add, eval_expr, eval_expr, Orm.eval_not,
        eval_foldl_add_any, eval_foldl_add_any]

/-- `condition_for` is true on a row iff some grant is true and every denial false. -/
theorem conditionFor_eval_eq_true {ability : Ability} {a : Action} {e : TypeId} :
    (ability.conditionFor a e).eval sql get = Tri.true ↔
      (∃ r ∈ ability.rulesFor a e, r.inverted = false ∧ r.condition.eval sql get = Tri.true) ∧
        ∀ r ∈ ability.rulesFor a e, r.inverted = true →
          r.condition.eval sql get = Tri.false := by
  rw [conditionFor_eval, Tri.and_eq_true, Tri.not_eq_true, Tri.any_map_eq_true,
    Tri.any_map_eq_false]
  simp [and_assoc]

end Filter

end Ability

/-! ## The order of the readings -/

section Ordered

variable {sql : Sql} {σ : Schema} {specs : List RuleSpec}

/-- A rule of a typed ability: its condition is its predicate's, and the predicate is typed. -/
theorem typed_of_mem_rulesFor (hw : ∀ s ∈ specs, s.WellTyped σ) {a : Action} {e : TypeId}
    {r : Rule} (hr : r ∈ (buildAbility specs).rulesFor a e) :
    r.condition = r.predicate.toCondition ∧ r.predicate.WellTyped (σ e) := by
  obtain ⟨spec, hs, rfl, rfl⟩ := mem_rulesFor_buildAbility hr
  exact ⟨rfl, hw spec hs⟩

/-- A row the pre-filter keeps passes the instance check. -/
theorem can_of_keeps (hw : ∀ s ∈ specs, s.WellTyped σ) {a : Action} {e : TypeId}
    {m : Model σ e} (h : ((buildAbility specs).conditionFor a e).Keeps sql m.get) :
    (buildAbility specs).can a m = true := by
  obtain ⟨⟨r, hr, hi, ht⟩, hden⟩ := Ability.conditionFor_eval_eq_true.mp h
  rw [Ability.can_iff]
  have hsound : ∀ r ∈ (buildAbility specs).rulesFor a e,
      (r.condition.eval sql m.get).Sound (r.predicate.matches m.get) := by
    intro r hr
    obtain ⟨hc, hp⟩ := typed_of_mem_rulesFor hw hr
    rw [hc]
    exact Predicate.sound_toCondition hp
  exact ⟨⟨r, hr, hi, (hsound r hr).of_true ht⟩,
    fun r hr hi => (hsound r hr).of_false (hden r hr hi)⟩

/-- A row that passes the instance check passes the class gate. -/
theorem canClass_of_can {ability : Ability} {a : Action} {e : TypeId} {m : Model σ e}
    (h : ability.can a m = true) : ability.canClass a e = true := by
  obtain ⟨⟨r, hr, hi, -⟩, -⟩ := Ability.can_iff.mp h
  exact Ability.canClass_iff.mpr ⟨r, hr, hi⟩

/-- So does one that the pre-filter keeps, typed or not. -/
theorem canClass_of_keeps {ability : Ability} {a : Action} {e : TypeId} {get : Column → Value}
    (h : (ability.conditionFor a e).Keeps sql get) : ability.canClass a e = true := by
  obtain ⟨⟨r, hr, hi, -⟩, -⟩ := Ability.conditionFor_eval_eq_true.mp h
  exact Ability.canClass_iff.mpr ⟨r, hr, hi⟩

/-- Without `NULL` the pre-filter keeps exactly the rows that pass the instance check. -/
theorem keeps_iff_can (hw : ∀ s ∈ specs, s.WellTyped σ) {a : Action} {e : TypeId}
    {m : Model σ e}
    (hn : ∀ r ∈ (buildAbility specs).rulesFor a e, r.predicate.NullFree m.get) :
    ((buildAbility specs).conditionFor a e).Keeps sql m.get ↔
      (buildAbility specs).can a m = true := by
  refine ⟨can_of_keeps hw, fun h => ?_⟩
  obtain ⟨⟨r, hr, hi, hm⟩, hden⟩ := Ability.can_iff.mp h
  have heval : ∀ r ∈ (buildAbility specs).rulesFor a e,
      r.condition.eval sql m.get = .ofBool (r.predicate.matches m.get) := by
    intro r hr
    obtain ⟨hc, hp⟩ := typed_of_mem_rulesFor hw hr
    rw [hc]
    exact Predicate.eval_of_nullFree hp (hn r hr)
  refine Ability.conditionFor_eval_eq_true.mpr ⟨⟨r, hr, hi, ?_⟩, fun r hr hi => ?_⟩
  · rw [heval r hr, hm]
    rfl
  · rw [heval r hr, hden r hr hi]
    rfl

/-- **The three readings are ordered.** For an ability built from typed statements: a row the
pre-filter keeps is accepted by `can`; a row `can` accepts passes the class gate; so `mask_many`
drops none of the rows the pre-filter returned and the gate rejects no caller with a readable row.
Without a `NULL` among the columns and rule values compared, pre-filter and `can` coincide. -/
theorem readings_ordered (sql : Sql) (hw : ∀ s ∈ specs, s.WellTyped σ) (a : Action) (e : TypeId)
    (serialize : Model σ e → Option Json) :
    (∀ m : Model σ e, ((buildAbility specs).conditionFor a e).Keeps sql m.get →
        (buildAbility specs).can a m = true) ∧
      (∀ m : Model σ e, (buildAbility specs).can a m = true →
        (buildAbility specs).canClass a e = true) ∧
      (∀ rows : List (Model σ e),
        (∀ m ∈ rows, ((buildAbility specs).conditionFor a e).Keeps sql m.get) →
        (buildAbility specs).maskMany serialize a rows =
          rows.map ((buildAbility specs).mask serialize a)) ∧
      (∀ m : Model σ e,
        (∀ r ∈ (buildAbility specs).rulesFor a e, r.predicate.NullFree m.get) →
        (((buildAbility specs).conditionFor a e).Keeps sql m.get ↔
          (buildAbility specs).can a m = true)) := by
  refine ⟨fun m => can_of_keeps hw, fun m => canClass_of_can, fun rows hrows => ?_,
    fun m hn => keeps_iff_can hw hn⟩
  unfold Ability.maskMany
  rw [List.filter_eq_self.mpr fun m hm => can_of_keeps hw (hrows m hm)]

/-- Rows are readable by their owner, unless locked. -/
def ownerSpecs : List RuleSpec :=
  [(RuleSpec.can .read 0).when (.eq "owner" (.int (some 5))),
    (RuleSpec.cannot .read 0).when (.eq "locked" (.int (some 1)))]

/-- A row of owner 5 that is not locked. -/
def ownedRow : Model (fun _ _ => .int) 0 where
  get c := if c = "owner" then .int (some 5) else .int (some 0)
  typed c := by split <;> rfl

theorem ownerSpecs_wellTyped : ∀ s ∈ ownerSpecs, s.WellTyped fun _ _ => .int := by
  simp [ownerSpecs, RuleSpec.WellTyped, RuleSpec.when, Predicate.WellTyped,
    Predicate.comparisons, Predicate.AtomTyped, Predicate.operands, Value.variant]

theorem ownedRow_readings :
    ((buildAbility ownerSpecs).conditionFor .read 0).Keeps Sql.strict ownedRow.get ∧
      (buildAbility ownerSpecs).can .read ownedRow = true :=
  have hkeeps : ((buildAbility ownerSpecs).conditionFor .read 0).Keeps Sql.strict
      ownedRow.get := by decide
  ⟨hkeeps, (readings_ordered Sql.strict ownerSpecs_wellTyped .read 0 fun _ => none).1
    ownedRow hkeeps⟩

end Ordered

end Nestrs.Authz
