import Nestrs.Orm.Condition
import Mathlib.Data.List.Sections

/-!
# The rule predicate and its two interpreters

Model of `crates/nestrs-authz/src/predicate.rs`. One syntax, `Predicate`, read twice:
`toCondition` lowers it to the `WHERE` fragment of the query pre-filter, and `matches` evaluates
it on a loaded model for the response check.

The file's doc says that sharing the syntax keeps the two readings from drifting apart. They do
drift on `NULL`: a comparison with `NULL` is unknown in SQL, where `matches` compares values and
answers yes or no. Negation turns that difference into a different verdict.

* `sound_toCondition`: when the rule values have their column's variant, a definite SQL verdict is
  the in-memory one. So the pre-filter never keeps a row that `matches` rejects.
* `Reading.iff_clauses`: a reading accepts a tree iff it accepts every comparison of one of the
  conjunctions the tree comes to (`clauses`), and both readings are such;
* `keeps_iff_matches`: the two agree on a row iff no slip (`NULL` is compared, or the database
  converts an operand) decides which conjunctions the row passes;
* `keeps_iff_matches_of_typed`: with typed rule values, iff some conjunction that the row passes
  compares no `NULL`, or it passes none;
* `eval_of_nullFree`: without `NULL` typed rules agree, whatever the shape of the tree.
* `matches_congr`: `matches` reads the columns the tree compares, and no other.
-/

namespace Nestrs.Authz

open Nestrs.Lib Nestrs.Orm

/-- `Predicate<E>`: a condition over an entity's columns. -/
inductive Predicate where
  | always
  | eq (col : Column) (value : Value)
  | isIn (col : Column) (values : List Value)
  | and (parts : List Predicate)
  | or (parts : List Predicate)
  | not (inner : Predicate)

namespace Predicate

/-- Induction over a predicate, with the hypothesis for every member of a list of parts. -/
theorem induct {P : Predicate → Prop} (always : P .always) (eq : ∀ c v, P (.eq c v))
    (isIn : ∀ c vs, P (.isIn c vs)) (and : ∀ ps, (∀ p ∈ ps, P p) → P (.and ps))
    (or : ∀ ps, (∀ p ∈ ps, P p) → P (.or ps)) (not : ∀ p, P p → P (.not p)) (p : Predicate) :
    P p :=
  @Predicate.rec P (fun ps => ∀ p ∈ ps, P p) always eq isIn and or not
    (fun _ h => absurd h List.not_mem_nil)
    (fun _ _ hp hps q hq => by
      rcases List.mem_cons.mp hq with rfl | hq
      · exact hp
      · exact hps q hq)
    p

mutual

/-- `Predicate::to_condition`. -/
def toCondition : Predicate → Condition
  | always => Condition.all
  | eq col value => Condition.all.add (.simpleExpr (.eq col value))
  | isIn col values => Condition.all.add (.simpleExpr (.isIn col values))
  | and parts => addConditions Condition.all parts
  | or parts => addConditions Condition.any parts
  | not inner => inner.toCondition.not

/-- The fold of `And` and `Or`: `parts.iter().fold(acc, |acc, p| acc.add(p.to_condition()))`. -/
def addConditions (acc : Condition) : List Predicate → Condition
  | [] => acc
  | p :: ps => addConditions (acc.add p.toCondition.expr) ps

end

mutual

/-- `Predicate::matches` on a model, read through `ModelTrait::get`. -/
def «matches» (get : Column → Value) : Predicate → Bool
  | always => true
  | eq col value => get col == value
  | isIn col values => values.any fun v => v == get col
  | and parts => matchesAll get parts
  | or parts => matchesAny get parts
  | not inner => !inner.matches get

/-- `parts.iter().all(|p| p.matches(model))`. -/
def matchesAll (get : Column → Value) : List Predicate → Bool
  | [] => true
  | p :: ps => p.matches get && matchesAll get ps

/-- `parts.iter().any(|p| p.matches(model))`. -/
def matchesAny (get : Column → Value) : List Predicate → Bool
  | [] => false
  | p :: ps => p.matches get || matchesAny get ps

end

theorem addConditions_eq_foldl (ps : List Predicate) (acc : Condition) :
    addConditions acc ps = ps.foldl (fun acc p => acc.add p.toCondition.expr) acc := by
  induction ps generalizing acc with
  | nil => simp only [addConditions, List.foldl_nil]
  | cons p ps ih => simp only [addConditions, ih, List.foldl_cons]

theorem matchesAll_eq_all (get : Column → Value) (ps : List Predicate) :
    matchesAll get ps = ps.all (Predicate.matches get) := by
  induction ps with
  | nil => simp only [matchesAll, List.all_nil]
  | cons p ps ih => simp only [matchesAll, ih, List.all_cons]

theorem matchesAny_eq_any (get : Column → Value) (ps : List Predicate) :
    matchesAny get ps = ps.any (Predicate.matches get) := by
  induction ps with
  | nil => simp only [matchesAny, List.any_nil]
  | cons p ps ih => simp only [matchesAny, ih, List.any_cons]

/-! ## The SQL reading, constructor by constructor -/

section Eval

variable {sql : Sql} {get : Column → Value}

@[simp] theorem eval_always : (always.toCondition).eval sql get = Tri.true := by
  simp only [toCondition, eval_all_empty]

@[simp] theorem eval_eq (c : Column) (v : Value) :
    ((eq c v).toCondition).eval sql get = sqlEq sql (get c) v := by
  simp only [toCondition, eval_all_add, eval_simpleExpr, SimpleExpr.eval]

@[simp] theorem eval_isIn (c : Column) (vs : List Value) :
    ((isIn c vs).toCondition).eval sql get = .any (vs.map (sqlEq sql (get c))) := by
  simp only [toCondition, eval_all_add, eval_simpleExpr, SimpleExpr.eval]

@[simp] theorem eval_and (ps : List Predicate) :
    ((and ps).toCondition).eval sql get = .all (ps.map fun p => p.toCondition.eval sql get) := by
  simp only [toCondition, addConditions_eq_foldl, eval_foldl_add_all]

@[simp] theorem eval_or (ps : List Predicate) :
    ((or ps).toCondition).eval sql get = .any (ps.map fun p => p.toCondition.eval sql get) := by
  simp only [toCondition, addConditions_eq_foldl, eval_foldl_add_any]

@[simp] theorem eval_not (p : Predicate) :
    ((not p).toCondition).eval sql get = (p.toCondition.eval sql get).not := by
  simp only [toCondition, Orm.eval_not]

end Eval

/-! ## The comparisons of a tree -/

/-- A comparison node of a tree (`eq` or `isIn`) and whether it stands under an even number of
negations. -/
structure Comparison where
  positive : Bool
  atom : Predicate

/-- The column and the values an atom compares. -/
def operands : Predicate → Option (Column × List Value)
  | eq col value => some (col, [value])
  | isIn col values => some (col, values)
  | _ => none

mutual

/-- Every comparison of the tree, with its sign. -/
def comparisons (positive : Bool) : Predicate → List Comparison
  | always => []
  | eq col value => [⟨positive, eq col value⟩]
  | isIn col values => [⟨positive, isIn col values⟩]
  | and parts => comparisonsAll positive parts
  | or parts => comparisonsAll positive parts
  | not inner => inner.comparisons (!positive)

def comparisonsAll (positive : Bool) : List Predicate → List Comparison
  | [] => []
  | p :: ps => p.comparisons positive ++ comparisonsAll positive ps

end

theorem comparisonsAll_eq_flatMap (b : Bool) (ps : List Predicate) :
    comparisonsAll b ps = ps.flatMap (comparisons b) := by
  induction ps with
  | nil => simp only [comparisonsAll, List.flatMap_nil]
  | cons p ps ih => simp only [comparisonsAll, ih, List.flatMap_cons]

theorem forall_comparisonsAll {b : Bool} {ps : List Predicate} {Q : Comparison → Prop} :
    (∀ k ∈ comparisonsAll b ps, Q k) ↔ ∀ p ∈ ps, ∀ k ∈ p.comparisons b, Q k := by
  rw [comparisonsAll_eq_flatMap]
  simp only [List.mem_flatMap]
  constructor
  · intro h p hp k hk
    exact h k ⟨p, hp, hk⟩
  · rintro h k ⟨p, hp, hk⟩
    exact h p hp k hk

/-- The atom compares no `NULL`: neither the column nor a rule value is one. -/
def AtomNullFree (get : Column → Value) (atom : Predicate) : Prop :=
  ∀ c vs, atom.operands = some (c, vs) → (get c).isNull = false ∧ ∀ v ∈ vs, v.isNull = false

/-- The atom's rule values have the variant of the column. -/
def AtomTyped (column : Column → Variant) (atom : Predicate) : Prop :=
  ∀ c vs, atom.operands = some (c, vs) → ∀ v ∈ vs, v.variant = column c

/-- No comparison of the tree is with a `NULL` column or a `NULL` value. -/
def NullFree (get : Column → Value) (p : Predicate) : Prop :=
  ∀ k ∈ p.comparisons true, AtomNullFree get k.atom

/-- Every rule value has the variant of the column it is compared with. -/
def WellTyped (column : Column → Variant) (p : Predicate) : Prop :=
  ∀ k ∈ p.comparisons true, AtomTyped column k.atom

section Readings

variable {sql : Sql} {get : Column → Value}

/-! ## The conjunctions of a tree -/

/-- One alternative of each list, together; or any alternative of any list. -/
def junction (every : Bool) (parts : List (List (List Comparison))) : List (List Comparison) :=
  if every then parts.sections.map List.flatten else parts.flatten

mutual

/-- The tree as a disjunction of conjunctions of comparisons, with the negations pushed down to
these; or its negation, when it is not `positive`. -/
def clauses (positive : Bool) : Predicate → List (List Comparison)
  | always => if positive then [[]] else []
  | eq col value => [[⟨positive, eq col value⟩]]
  | isIn col values => [[⟨positive, isIn col values⟩]]
  | and parts => junction positive (clausesEach positive parts)
  | or parts => junction (!positive) (clausesEach positive parts)
  | not inner => inner.clauses (!positive)

def clausesEach (positive : Bool) : List Predicate → List (List (List Comparison))
  | [] => []
  | p :: ps => p.clauses positive :: clausesEach positive ps

end

theorem clausesEach_eq_map (b : Bool) (ps : List Predicate) :
    clausesEach b ps = ps.map (clauses b) := by
  induction ps with
  | nil => simp only [clausesEach, List.map_nil]
  | cons p ps ih => simp only [clausesEach, ih, List.map_cons]

theorem exists_sections {Q : Comparison → Prop} (parts : List (List (List Comparison))) :
    (∃ K ∈ parts.sections.map List.flatten, ∀ k ∈ K, Q k) ↔
      ∀ part ∈ parts, ∃ K ∈ part, ∀ k ∈ K, Q k := by
  induction parts with
  | nil => simp
  | cons part parts ih =>
    rw [List.forall_mem_cons, ← ih]
    simp only [List.mem_map, List.mem_sections, List.forall₂_cons_right_iff]
    constructor
    · rintro ⟨_, ⟨_, ⟨K, Ks, hK, hKs, rfl⟩, rfl⟩, hall⟩
      rw [List.flatten_cons, List.forall_mem_append] at hall
      exact ⟨⟨K, hK, hall.1⟩, _, ⟨Ks, hKs, rfl⟩, hall.2⟩
    · rintro ⟨⟨K, hK, hall⟩, _, ⟨Ks, hKs, rfl⟩, hrest⟩
      refine ⟨_, ⟨_, ⟨K, Ks, hK, hKs, rfl⟩, rfl⟩, ?_⟩
      rw [List.flatten_cons, List.forall_mem_append]
      exact ⟨hall, hrest⟩

/-- A way to read a tree: what it is to accept (`true`) or to reject (`false`) one, made up of what
it is for the parts, and of `lit` for the comparisons. -/
structure Reading (verdict : Bool → Predicate → Prop) (lit : Comparison → Prop) : Prop where
  always : ∀ b, verdict b always ↔ b = true
  eq : ∀ b c v, verdict b (eq c v) ↔ lit ⟨b, eq c v⟩
  isIn : ∀ b c vs, verdict b (isIn c vs) ↔ lit ⟨b, isIn c vs⟩
  and_true : ∀ ps, verdict true (and ps) ↔ ∀ p ∈ ps, verdict true p
  and_false : ∀ ps, verdict false (and ps) ↔ ∃ p ∈ ps, verdict false p
  or_true : ∀ ps, verdict true (or ps) ↔ ∃ p ∈ ps, verdict true p
  or_false : ∀ ps, verdict false (or ps) ↔ ∀ p ∈ ps, verdict false p
  not : ∀ b p, verdict b (not p) ↔ verdict (!b) p

/-- **A tree is read as its conjunctions are**: it is accepted (rejected) iff all comparisons of one
of its conjunctions (of those of its negation) hold. -/
theorem Reading.iff_clauses {verdict : Bool → Predicate → Prop} {lit : Comparison → Prop}
    (h : Reading verdict lit) (p : Predicate) (b : Bool) :
    verdict b p ↔ ∃ K ∈ p.clauses b, ∀ k ∈ K, lit k := by
  have hall : ∀ {ps : List Predicate},
      (∀ p ∈ ps, ∀ b, verdict b p ↔ ∃ K ∈ p.clauses b, ∀ k ∈ K, lit k) → ∀ b,
      (∀ p ∈ ps, verdict b p) ↔ ∃ K ∈ junction true (clausesEach b ps), ∀ k ∈ K, lit k := by
    intro ps ih b
    rw [junction, if_pos rfl, exists_sections, clausesEach_eq_map, List.forall_mem_map]
    exact forall₂_congr fun p hp => ih p hp b
  have hany : ∀ {ps : List Predicate},
      (∀ p ∈ ps, ∀ b, verdict b p ↔ ∃ K ∈ p.clauses b, ∀ k ∈ K, lit k) → ∀ b,
      (∃ p ∈ ps, verdict b p) ↔ ∃ K ∈ junction false (clausesEach b ps), ∀ k ∈ K, lit k := by
    intro ps ih b
    rw [junction, if_neg Bool.false_ne_true, clausesEach_eq_map]
    simp only [List.mem_flatten, List.mem_map]
    constructor
    · rintro ⟨p, hp, hv⟩
      obtain ⟨K, hK, hlit⟩ := (ih p hp b).mp hv
      exact ⟨K, ⟨_, ⟨p, hp, rfl⟩, hK⟩, hlit⟩
    · rintro ⟨K, ⟨_, ⟨p, hp, rfl⟩, hK⟩, hlit⟩
      exact ⟨p, hp, (ih p hp b).mpr ⟨K, hK, hlit⟩⟩
  induction p using Predicate.induct generalizing b with
  | always =>
    rw [h.always, clauses]
    cases b <;> simp
  | eq c v => simp [h.eq, clauses]
  | isIn c vs => simp [h.isIn, clauses]
  | and ps ih =>
    cases b with
    | true => rw [h.and_true, clauses, hall ih]
    | false => rw [h.and_false, clauses, hany ih]
  | or ps ih =>
    cases b with
    | true => rw [h.or_true, clauses, hany ih, Bool.not_true]
    | false => rw [h.or_false, clauses, hall ih, Bool.not_false]
  | not p ih =>
    rw [clauses]
    exact (h.not b p).trans (ih (!b))

/-! ## A comparison of values -/

/-- The database's `=` on two operands is true: neither is `NULL`. -/
def SqlEqual (sql : Sql) (a v : Value) : Prop :=
  a.isNull = false ∧ v.isNull = false ∧ sql.eq a v = true

/-- The database's `=` on two operands is false. -/
def SqlUnequal (sql : Sql) (a v : Value) : Prop :=
  a.isNull = false ∧ v.isNull = false ∧ sql.eq a v = false

namespace Comparison

/-- The row passes the comparison by equality of `Value`s: the column's is among those compared or,
where the comparison is negated, is not. -/
def Met (get : Column → Value) (k : Comparison) : Prop :=
  ∀ c vs, k.atom.operands = some (c, vs) → (get c ∈ vs ↔ k.positive = true)

/-- The row passes the comparison in the database: some operand is equal to the column or, where
the comparison is negated, every one is unequal to it. -/
def Kept (sql : Sql) (get : Column → Value) (k : Comparison) : Prop :=
  ∀ c vs, k.atom.operands = some (c, vs) →
    if k.positive then ∃ v ∈ vs, SqlEqual sql (get c) v else ∀ v ∈ vs, SqlUnequal sql (get c) v

/-- A `NULL` takes part: the column is one or, where the comparison is negated, a rule value is. -/
def ComparesNull (get : Column → Value) (k : Comparison) : Prop :=
  ∃ c vs, k.atom.operands = some (c, vs) ∧
    ∃ v ∈ vs, (get c).isNull = true ∨ (k.positive = false ∧ v.isNull = true)

/-- The database converts: it finds the column equal to a rule value that is another `Value`. -/
def Converts (sql : Sql) (get : Column → Value) (k : Comparison) : Prop :=
  ∃ c vs, k.atom.operands = some (c, vs) ∧ ∃ v ∈ vs, get c ≠ v ∧ SqlEqual sql (get c) v

/-- The row passes the comparison, and nothing comes between the two layers: no `NULL` takes part
and, where the comparison is negated, nothing is converted. -/
def Clear (sql : Sql) (get : Column → Value) (k : Comparison) : Prop :=
  k.Met get ∧ ¬ k.ComparesNull get ∧ (k.positive = false → ¬ k.Converts sql get)

/-- The row passes the comparison because the database converts. -/
def Converted (sql : Sql) (get : Column → Value) (k : Comparison) : Prop :=
  k.positive = true ∧ k.Converts sql get

end Comparison

/-- **Where the two layers agree on a row.** If it passes a conjunction of the tree by equality of
`Value`s, then some conjunction without a slip; if it passes one thanks to a conversion, then some
conjunction by equality of `Value`s. -/
structure DriftFree (sql : Sql) (get : Column → Value) (p : Predicate) : Prop where
  ofValues : (∃ K ∈ p.clauses true, ∀ k ∈ K, k.Met get) →
    ∃ K ∈ p.clauses true, ∀ k ∈ K, k.Clear sql get ∨ k.Converted sql get
  ofConversions : ∀ K ∈ p.clauses true, (∀ k ∈ K, k.Clear sql get ∨ k.Converted sql get) →
    (∃ k ∈ K, k.Converted sql get) → ∃ K' ∈ p.clauses true, ∀ k ∈ K', k.Met get

/-! ## The two readings -/

theorem sqlEqual_self {a : Value} (h : a.isNull = false) : SqlEqual sql a a :=
  ⟨h, h, by simp [sql.eq_same a a rfl]⟩

theorem sqlEq_self {a : Value} (h : a.isNull = false) : sqlEq sql a a = Tri.true :=
  sqlEq_eq_true.mpr (sqlEqual_self h)

/-- An atom is decided as the list of its operands, by the database. -/
theorem eval_atom {p : Predicate} {c : Column} {vs : List Value}
    (h : p.operands = some (c, vs)) :
    p.toCondition.eval sql get = Tri.any (vs.map (sqlEq sql (get c))) := by
  cases p with
  | eq col value =>
    simp only [operands, Option.some.injEq, Prod.mk.injEq] at h
    obtain ⟨rfl, rfl⟩ := h
    rw [eval_eq, List.map_cons, List.map_nil]
    cases sqlEq sql (get col) value <;> rfl
  | isIn col values =>
    simp only [operands, Option.some.injEq, Prod.mk.injEq] at h
    obtain ⟨rfl, rfl⟩ := h
    exact eval_isIn col values
  | always => simp [operands] at h
  | and ps => simp [operands] at h
  | or ps => simp [operands] at h
  | not q => simp [operands] at h

/-- And by value. -/
theorem matches_atom {p : Predicate} {c : Column} {vs : List Value}
    (h : p.operands = some (c, vs)) : p.matches get = true ↔ get c ∈ vs := by
  cases p with
  | eq col value =>
    simp only [operands, Option.some.injEq, Prod.mk.injEq] at h
    obtain ⟨rfl, rfl⟩ := h
    simp [Predicate.matches]
  | isIn col values =>
    simp only [operands, Option.some.injEq, Prod.mk.injEq] at h
    obtain ⟨rfl, rfl⟩ := h
    simp [Predicate.matches, List.any_eq_true]
  | always => simp [operands] at h
  | and ps => simp [operands] at h
  | or ps => simp [operands] at h
  | not q => simp [operands] at h

theorem eval_atom_iff {p : Predicate} {c : Column} {vs : List Value}
    (h : p.operands = some (c, vs)) (b : Bool) :
    p.toCondition.eval sql get = .ofBool b ↔ Comparison.Kept sql get ⟨b, p⟩ := by
  unfold Comparison.Kept SqlEqual SqlUnequal
  simp only [h, Option.some.injEq, Prod.mk.injEq, and_imp, forall_eq', forall_apply_eq_imp_iff]
  rw [eval_atom h]
  cases b with
  | true => simp [Tri.ofBool, Tri.any_map_eq_true, sqlEq_eq_true]
  | false => simp [Tri.ofBool, Tri.any_map_eq_false, sqlEq_eq_false]

theorem matches_atom_iff {p : Predicate} {c : Column} {vs : List Value}
    (h : p.operands = some (c, vs)) (b : Bool) :
    p.matches get = b ↔ Comparison.Met get ⟨b, p⟩ := by
  unfold Comparison.Met
  simp only [h, Option.some.injEq, Prod.mk.injEq, and_imp, forall_eq', forall_apply_eq_imp_iff]
  rw [← matches_atom h]
  cases b <;> simp

/-- The query pre-filter is a reading. -/
theorem reading_toCondition (sql : Sql) (get : Column → Value) :
    Reading (fun b p => p.toCondition.eval sql get = .ofBool b) (Comparison.Kept sql get) where
  always b := by cases b <;> simp [Tri.ofBool]
  eq b c v := eval_atom_iff rfl b
  isIn b c vs := eval_atom_iff rfl b
  and_true ps := by simp only [eval_and, Tri.ofBool, Tri.all_map_eq_true]
  and_false ps := by simp only [eval_and, Tri.ofBool, Tri.all_map_eq_false]
  or_true ps := by simp only [eval_or, Tri.ofBool, Tri.any_map_eq_true]
  or_false ps := by simp only [eval_or, Tri.ofBool, Tri.any_map_eq_false]
  not b p := by cases b <;> simp [Tri.ofBool, Tri.not_eq_true, Tri.not_eq_false]

/-- The response check is a reading. -/
theorem reading_matches (get : Column → Value) :
    Reading (fun b p => p.matches get = b) (Comparison.Met get) where
  always b := by cases b <;> simp [Predicate.matches]
  eq b c v := matches_atom_iff rfl b
  isIn b c vs := matches_atom_iff rfl b
  and_true ps := by simp [Predicate.matches, matchesAll_eq_all]
  and_false ps := by simp [Predicate.matches, matchesAll_eq_all]
  or_true ps := by simp [Predicate.matches, matchesAny_eq_any]
  or_false ps := by simp [Predicate.matches, matchesAny_eq_any]
  not b p := by cases b <;> simp [Predicate.matches]

/-- What the database keeps compares no `NULL`. -/
theorem not_comparesNull {k : Comparison} (h : k.Kept sql get) : ¬ k.ComparesNull get := by
  rintro ⟨c, vs, ho, v, hv, hnull⟩
  have hkept := h c vs ho
  split at hkept
  · rename_i hpos
    obtain ⟨w, -, hcol, -⟩ := hkept
    rcases hnull with hnull | ⟨hneg, -⟩
    · exact absurd (hcol.symm.trans hnull) (by simp)
    · exact absurd (hneg.symm.trans hpos) (by simp)
  · obtain ⟨hcol, hval, -⟩ := hkept v hv
    rcases hnull with hnull | ⟨-, hnull⟩
    · exact absurd (hcol.symm.trans hnull) (by simp)
    · exact absurd (hval.symm.trans hnull) (by simp)

/-- What the database finds unequal it does not convert. -/
theorem not_converts_of_kept {k : Comparison} (h : k.Kept sql get) (hneg : k.positive = false) :
    ¬ k.Converts sql get := by
  rintro ⟨c, vs, ho, v, hv, -, -, -, heq⟩
  have hun := h c vs ho
  rw [hneg, if_neg Bool.false_ne_true] at hun
  exact absurd ((hun v hv).2.2.symm.trans heq) (by simp)

/-- Without a conversion, what the database keeps is equal as a `Value`. -/
theorem met_of_kept {k : Comparison} (h : k.Kept sql get) (hc : ¬ k.Converts sql get) :
    k.Met get := by
  intro c vs ho
  have hkept := h c vs ho
  constructor
  · intro hmem
    by_contra hneg
    rw [if_neg hneg] at hkept
    have hun := hkept _ hmem
    rw [SqlUnequal, sql.eq_same _ _ rfl] at hun
    simp at hun
  · intro hpos
    rw [if_pos hpos] at hkept
    obtain ⟨v, hv, heq⟩ := hkept
    have hval : get c = v := by
      by_contra hne
      exact hc ⟨c, vs, ho, v, hv, hne, heq⟩
    exact hval ▸ hv

/-- Without a slip, what is equal as a `Value` is kept by the database. -/
theorem kept_of_clear {k : Comparison} (h : k.Clear sql get) : k.Kept sql get := by
  obtain ⟨hmet, hn, hc⟩ := h
  intro c vs ho
  have hcol : ∀ v ∈ vs, (get c).isNull = false := fun v hv => by
    by_contra hnull
    exact hn ⟨c, vs, ho, v, hv, .inl (by simpa using hnull)⟩
  split
  · rename_i hpos
    have hmem := (hmet c vs ho).mpr hpos
    exact ⟨_, hmem, sqlEqual_self (hcol _ hmem)⟩
  · rename_i hneg
    intro v hv
    have hnull : v.isNull = false := by
      by_contra hnull
      exact hn ⟨c, vs, ho, v, hv, .inr ⟨by simpa using hneg, by simpa using hnull⟩⟩
    refine ⟨hcol v hv, hnull, ?_⟩
    by_contra heq
    refine hc (by simpa using hneg)
      ⟨c, vs, ho, v, hv, fun hval => hneg ((hmet c vs ho).mp (hval ▸ hv)), hcol v hv, hnull, ?_⟩
    simpa using heq

/-- What the database keeps, by what the row and the rule values are. -/
theorem kept_iff {k : Comparison} :
    k.Kept sql get ↔ k.Clear sql get ∨ k.Converted sql get := by
  constructor
  · intro h
    by_cases hc : k.Converts sql get
    · cases hsign : k.positive with
      | true => exact .inr ⟨hsign, hc⟩
      | false => exact absurd hc (not_converts_of_kept h hsign)
    · exact .inl ⟨met_of_kept h hc, not_comparesNull h, fun _ => hc⟩
  · rintro (hclear | ⟨hpos, c, vs, ho, v, hv, -, heq⟩)
    · exact kept_of_clear hclear
    · intro c' vs' ho'
      obtain ⟨rfl, rfl⟩ := Prod.mk.inj (Option.some.inj (ho.symm.trans ho'))
      rw [if_pos hpos]
      exact ⟨v, hv, heq⟩

/-- What a query keeps, by what the row and the rule values are. -/
theorem keeps_iff_exists_clauses {p : Predicate} :
    p.toCondition.Keeps sql get ↔
      ∃ K ∈ p.clauses true, ∀ k ∈ K, k.Clear sql get ∨ k.Converted sql get := by
  simp only [← kept_iff]
  exact (reading_toCondition sql get).iff_clauses p true

/-- What the response check accepts. -/
theorem matches_iff_exists_clauses {p : Predicate} :
    p.matches get = true ↔ ∃ K ∈ p.clauses true, ∀ k ∈ K, k.Met get :=
  (reading_matches get).iff_clauses p true

/-- **When the pre-filter and the response check agree**: the `WHERE` keeps a row iff `matches`
accepts it, exactly for the rows on which no slip decides. -/
theorem keeps_iff_matches (sql : Sql) {σ : Schema} {e : TypeId} (m : Model σ e) (p : Predicate) :
    (p.toCondition.Keeps sql m.get ↔ p.matches m.get = true) ↔ p.DriftFree sql m.get := by
  rw [keeps_iff_exists_clauses, matches_iff_exists_clauses]
  constructor
  · intro h
    exact ⟨h.mpr, fun K hK hpass _ => h.mp ⟨K, hK, hpass⟩⟩
  · rintro ⟨hvalues, hconversions⟩
    refine ⟨?_, hvalues⟩
    rintro ⟨K, hK, hpass⟩
    by_cases hslip : ∃ k ∈ K, k.Converted sql m.get
    · exact hconversions K hK hpass hslip
    · exact ⟨K, hK, fun k hk => ((hpass k hk).resolve_right fun hc => hslip ⟨k, hk, hc⟩).1⟩

/-- A row whose integer columns are all `NULL`. -/
def nullRow : Model (fun _ _ => .int) 0 where
  get _ := .int none
  typed _ := rfl

/-- `NOT (owner = 5)` on a row without owner: unknown in SQL, accepted in memory. -/
theorem not_eq_null_drifts :
    ¬ ((not (eq "owner" (.int (some 5)))).toCondition.Keeps Sql.strict nullRow.get ↔
        (not (eq "owner" (.int (some 5)))).matches nullRow.get = true) := by
  decide

/-- Beside a part that always holds, the same comparison parts nothing. -/
example : (or [always, not (eq "owner" (.int (some 5)))]).DriftFree Sql.strict nullRow.get where
  ofValues _ := ⟨[], by simp [clauses, clausesEach, junction], by simp⟩
  ofConversions _ _ _ _ := ⟨[], by simp [clauses, clausesEach, junction], by simp⟩

/-! ## Typed rule values -/

/-- A conjunction of a junction has its comparisons from the parts. -/
theorem mem_of_junction {every : Bool} {parts : List (List (List Comparison))}
    {K : List Comparison} {k : Comparison} (hK : K ∈ junction every parts) (hk : k ∈ K) :
    ∃ part ∈ parts, ∃ K' ∈ part, k ∈ K' := by
  unfold junction at hK
  split at hK
  · obtain ⟨Ks, hKs, rfl⟩ := List.mem_map.mp hK
    rw [List.mem_sections] at hKs
    clear hK
    induction hKs with
    | nil => exact absurd hk List.not_mem_nil
    | @cons K' part Ks parts hK' _ ih =>
      rw [List.flatten_cons, List.mem_append] at hk
      rcases hk with hk | hk
      · exact ⟨part, List.mem_cons_self, K', hK', hk⟩
      · obtain ⟨part', hpart', h⟩ := ih hk
        exact ⟨part', List.mem_cons_of_mem _ hpart', h⟩
  · obtain ⟨part, hpart, hK⟩ := List.mem_flatten.mp hK
    exact ⟨part, hpart, K, hK, hk⟩

/-- The conjunctions are of the tree's comparisons. -/
theorem mem_comparisons_of_clauses {p : Predicate} {b : Bool} {K : List Comparison}
    {k : Comparison} (hK : K ∈ p.clauses b) (hk : k ∈ K) : k ∈ p.comparisons b := by
  have hparts : ∀ {every : Bool} {ps : List Predicate}, (∀ p ∈ ps, ∀ {b : Bool}
      {K : List Comparison}, K ∈ p.clauses b → k ∈ K → k ∈ p.comparisons b) →
      ∀ {b : Bool} {K : List Comparison}, K ∈ junction every (clausesEach b ps) → k ∈ K →
        k ∈ comparisonsAll b ps := by
    intro every ps ih b K hK hk
    rw [clausesEach_eq_map] at hK
    obtain ⟨part, hpart, K', hK', hk'⟩ := mem_of_junction hK hk
    obtain ⟨p, hp, rfl⟩ := List.mem_map.mp hpart
    rw [comparisonsAll_eq_flatMap, List.mem_flatMap]
    exact ⟨p, hp, ih p hp hK' hk'⟩
  induction p using Predicate.induct generalizing b K with
  | always =>
    rw [clauses] at hK
    split at hK
    · rw [List.mem_singleton.mp hK] at hk
      exact absurd hk List.not_mem_nil
    · exact absurd hK List.not_mem_nil
  | eq c v =>
    rw [clauses, List.mem_singleton] at hK
    rw [comparisons]
    exact hK ▸ hk
  | isIn c vs =>
    rw [clauses, List.mem_singleton] at hK
    rw [comparisons]
    exact hK ▸ hk
  | and ps ih =>
    rw [clauses] at hK
    rw [comparisons]
    exact hparts (fun p hp => ih p hp) hK hk
  | or ps ih =>
    rw [clauses] at hK
    rw [comparisons]
    exact hparts (fun p hp => ih p hp) hK hk
  | not p ih =>
    rw [clauses] at hK
    rw [comparisons]
    exact ih hK hk

theorem comparisons_atoms (b : Bool) (p : Predicate) :
    (p.comparisons b).map Comparison.atom = (p.comparisons true).map Comparison.atom := by
  suffices h : ∀ b b', (p.comparisons b).map Comparison.atom =
      (p.comparisons b').map Comparison.atom from h b true
  induction p using Predicate.induct with
  | always => simp [comparisons]
  | eq c v => simp [comparisons]
  | isIn c vs => simp [comparisons]
  | and ps ih =>
    intro b b'
    simp only [comparisons, comparisonsAll_eq_flatMap, List.map_flatMap]
    exact List.flatMap_congr fun p hp => ih p hp b b'
  | or ps ih =>
    intro b b'
    simp only [comparisons, comparisonsAll_eq_flatMap, List.map_flatMap]
    exact List.flatMap_congr fun p hp => ih p hp b b'
  | not p ih =>
    intro b b'
    simp only [comparisons]
    exact ih _ _

/-- The atoms of a tree do not depend on the sign they are listed with. -/
theorem forall_atoms_iff {Q : Predicate → Prop} (b : Bool) (p : Predicate) :
    (∀ k ∈ p.comparisons b, Q k.atom) ↔ ∀ k ∈ p.comparisons true, Q k.atom := by
  rw [← List.forall_mem_map, comparisons_atoms, List.forall_mem_map]

section Typed

variable {σ : Schema} {e : TypeId} {m : Model σ e}

theorem sound_any_sqlEq {a : Value} {vs : List Value} (h : ∀ v ∈ vs, v.variant = a.variant) :
    (Tri.any (vs.map (sqlEq sql a))).Sound (vs.any fun v => decide (a = v)) :=
  Tri.sound_any fun v hv => sound_sqlEq (h v hv).symm

/-- **A definite SQL verdict is the in-memory one** when the rule values have the variants of
their columns, whatever is `NULL`. -/
theorem sound_toCondition {p : Predicate} (hw : p.WellTyped (σ e)) :
    (p.toCondition.eval sql m.get).Sound (p.matches m.get) := by
  induction p using Predicate.induct with
  | always => exact ⟨fun _ => by simp [Predicate.matches], by simp⟩
  | eq c v =>
    have hv : v.variant = σ e c := hw _ (by rw [comparisons]; exact List.mem_singleton_self _)
      c [v] rfl v (List.mem_singleton_self v)
    rw [eval_eq, show (eq c v).matches m.get = decide (m.get c = v) by
      simp only [Predicate.matches]; rfl]
    exact sound_sqlEq ((m.typed c).trans hv.symm)
  | isIn c vs =>
    have hv : ∀ v ∈ vs, v.variant = (m.get c).variant := fun v hv => by
      rw [m.typed c]
      exact hw _ (by rw [comparisons]; exact List.mem_singleton_self _) c vs rfl v hv
    rw [eval_isIn, show (isIn c vs).matches m.get = vs.any (fun v => decide (m.get c = v)) by
      simp only [Predicate.matches, eq_comm (a := m.get c)]; rfl]
    exact sound_any_sqlEq hv
  | and ps ih =>
    unfold WellTyped at hw
    rw [comparisons, forall_comparisonsAll] at hw
    rw [eval_and, show (and ps).matches m.get = ps.all (Predicate.matches m.get) by
      rw [Predicate.matches, matchesAll_eq_all]]
    exact Tri.sound_all fun p hp => ih p hp (hw p hp)
  | or ps ih =>
    unfold WellTyped at hw
    rw [comparisons, forall_comparisonsAll] at hw
    rw [eval_or, show (or ps).matches m.get = ps.any (Predicate.matches m.get) by
      rw [Predicate.matches, matchesAny_eq_any]]
    exact Tri.sound_any fun p hp => ih p hp (hw p hp)
  | not p ih =>
    unfold WellTyped at hw
    rw [comparisons] at hw
    rw [Predicate.eval_not, Predicate.matches]
    exact Tri.sound_not (ih ((forall_atoms_iff _ p).mp hw))

/-- Rule values with the variant of the column are not converted. -/
theorem not_converts {k : Comparison} (hw : AtomTyped (σ e) k.atom) : ¬ k.Converts sql m.get := by
  rintro ⟨c, vs, ho, v, hv, hne, -, -, heq⟩
  rw [sql.eq_same _ _ ((m.typed c).trans (hw c vs ho v hv).symm)] at heq
  exact hne (of_decide_eq_true heq)

/-- **With typed rule values, only `NULL` parts the two layers**: they agree iff the row passes no
conjunction by equality of `Value`s, or passes one in which no `NULL` is compared. -/
theorem keeps_iff_matches_of_typed {p : Predicate} (hw : p.WellTyped (σ e)) :
    (p.toCondition.Keeps sql m.get ↔ p.matches m.get = true) ↔
      ((∃ K ∈ p.clauses true, ∀ k ∈ K, k.Met m.get) →
        ∃ K ∈ p.clauses true, ∀ k ∈ K, k.Met m.get ∧ ¬ k.ComparesNull m.get) := by
  have htyped : ∀ K ∈ p.clauses true, ∀ k ∈ K, ¬ k.Converts sql m.get := fun K hK k hk =>
    not_converts (hw k (mem_comparisons_of_clauses hK hk))
  have hclear : ∀ K ∈ p.clauses true, (∀ k ∈ K, k.Clear sql m.get ∨ k.Converted sql m.get) →
      ∀ k ∈ K, k.Met m.get ∧ ¬ k.ComparesNull m.get := fun K hK hpass k hk => by
    rcases hpass k hk with hclear | hconverted
    · exact ⟨hclear.1, hclear.2.1⟩
    · exact absurd hconverted.2 (htyped K hK k hk)
  rw [keeps_iff_exists_clauses, matches_iff_exists_clauses]
  constructor
  · intro h hpass
    obtain ⟨K, hK, hpass⟩ := h.mpr hpass
    exact ⟨K, hK, hclear K hK hpass⟩
  · intro h
    constructor
    · rintro ⟨K, hK, hpass⟩
      exact ⟨K, hK, fun k hk => (hclear K hK hpass k hk).1⟩
    · intro hpass
      obtain ⟨K, hK, hfree⟩ := h hpass
      exact ⟨K, hK, fun k hk => .inl ⟨(hfree k hk).1, (hfree k hk).2, fun _ => htyped K hK k hk⟩⟩

/-- **Without `NULL` the two readings are one**: every verdict is definite and equal. -/
theorem eval_of_nullFree {p : Predicate} (hw : p.WellTyped (σ e)) (hn : p.NullFree m.get) :
    p.toCondition.eval sql m.get = .ofBool (p.matches m.get) := by
  cases hm : p.matches m.get
  all_goals
    obtain ⟨K, hK, hmet⟩ := ((reading_matches m.get).iff_clauses p _).mp hm
    refine ((reading_toCondition sql m.get).iff_clauses p _).mpr ⟨K, hK, fun k hk => ?_⟩
    have hmem := mem_comparisons_of_clauses hK hk
    refine kept_of_clear ⟨hmet k hk, ?_, fun _ => ?_⟩
    · rintro ⟨c, vs, ho, v, hv, hnull⟩
      obtain ⟨hcol, hvals⟩ := (forall_atoms_iff _ p).mpr hn k hmem c vs ho
      rcases hnull with hnull | ⟨-, hnull⟩
      · exact absurd (hcol.symm.trans hnull) (by simp)
      · exact absurd ((hvals v hv).symm.trans hnull) (by simp)
    · exact not_converts ((forall_atoms_iff _ p).mpr hw k hmem)

end Typed

/-! ## The columns of a tree -/

/-- Every comparison of the tree is on one of the columns. -/
def Over (columns : List Column) (p : Predicate) : Prop :=
  ∀ k ∈ p.comparisons true, ∀ c vs, k.atom.operands = some (c, vs) → c ∈ columns

/-- **A predicate reads its columns only.** -/
theorem matches_congr {columns : List Column} {get' : Column → Value}
    (hget : ∀ c ∈ columns, get c = get' c) {p : Predicate} (hp : p.Over columns) :
    p.matches get = p.matches get' := by
  induction p using Predicate.induct with
  | always => rw [Predicate.matches, Predicate.matches]
  | eq c v =>
    have hc : c ∈ columns := hp _ (by rw [comparisons]; exact List.mem_singleton_self _) c [v] rfl
    rw [Predicate.matches, Predicate.matches, hget c hc]
  | isIn c vs =>
    have hc : c ∈ columns := hp _ (by rw [comparisons]; exact List.mem_singleton_self _) c vs rfl
    rw [Predicate.matches, Predicate.matches, hget c hc]
  | and ps ih =>
    unfold Over at hp
    rw [comparisons, forall_comparisonsAll] at hp
    rw [Predicate.matches, Predicate.matches, matchesAll_eq_all, matchesAll_eq_all, Bool.eq_iff_iff,
      List.all_eq_true, List.all_eq_true]
    exact forall₂_congr fun p h => by rw [ih p h (hp p h)]
  | or ps ih =>
    unfold Over at hp
    rw [comparisons, forall_comparisonsAll] at hp
    rw [Predicate.matches, Predicate.matches, matchesAny_eq_any, matchesAny_eq_any, Bool.eq_iff_iff,
      List.any_eq_true, List.any_eq_true]
    exact exists_congr fun p => and_congr_right fun h => by rw [ih p h (hp p h)]
  | not p ih =>
    unfold Over at hp
    rw [comparisons] at hp
    rw [Predicate.matches, Predicate.matches, ih ((forall_atoms_iff
      (Q := fun atom => ∀ c vs, atom.operands = some (c, vs) → c ∈ columns) _ p).mp hp)]

end Readings

end Predicate

end Nestrs.Authz
