import Nestrs.Lib.Kleene

/-!
# Values, rows and SQL conditions

The part of SeaORM and sea-query that the authorization engine and the data layer are written
against. None of it is in the repository, so each definition follows the documented behaviour:

* `Value` is `sea_orm::Value`: a variant, each with an optional content, where `None` is the SQL
  `NULL` of that variant. `==` on values compares the variant and the content (`DecidableEq`).
  The variants no model needs by name are `other`.
* `Model σ e` is a loaded row of the entity `e`: `get` is `ModelTrait::get`, and every column
  holds a value of the column's own variant (`Schema`).
* `Sql` is the database's `=` on two non-`NULL` operands. On operands of one variant it is
  equality; between variants (an `int` rule value against a `bigint` column) it is whatever the
  database coerces them to.
* `Condition` is `sea_query::Condition` (`all`, `any`, `add`, `not`, `is_empty`), and `eval` its
  reading in SQL's three-valued logic: a comparison with `NULL` is unknown, an empty `IN` is
  false, the empty `all` is true and the empty `any` false. A `WHERE` keeps a row when the
  condition is true (`Condition.Keeps`).
-/

namespace Nestrs.Orm

open Nestrs.Lib

/-- The `TypeId` of a Rust type. -/
abbrev TypeId := Nat

/-- A column, by the name it serializes under (`IdenStatic::as_str`). -/
abbrev Column := String

/-- `sea_orm::prelude::Uuid`. -/
abbrev Uuid := BitVec 128

/-- The variant of a `sea_orm::Value`. -/
inductive Variant where
  | bool
  | int
  | bigInt
  | string
  | uuid
  | other (name : String)
deriving DecidableEq, Repr

/-- `sea_orm::Value`: `none` is the `NULL` of its variant. -/
inductive Value where
  | bool (v : Option Bool)
  | int (v : Option Int)
  | bigInt (v : Option Int)
  | string (v : Option String)
  | uuid (v : Option Uuid)
  | other (name : String) (v : Option String)
deriving DecidableEq, Repr

namespace Value

def variant : Value → Variant
  | bool _ => .bool
  | int _ => .int
  | bigInt _ => .bigInt
  | string _ => .string
  | uuid _ => .uuid
  | other name _ => .other name

/-- The value is the SQL `NULL`. -/
def isNull : Value → Bool
  | bool v => v.isNone
  | int v => v.isNone
  | bigInt v => v.isNone
  | string v => v.isNone
  | uuid v => v.isNone
  | other _ v => v.isNone

end Value

/-- The variant each entity's columns hold. -/
abbrev Schema := TypeId → Column → Variant

/-- A loaded model (`E::Model`), which is also the stored row: each column holds a value, possibly
`NULL`, of its own variant. -/
@[ext]
structure Model (σ : Schema) (e : TypeId) where
  /-- `ModelTrait::get`. -/
  get : Column → Value
  typed : ∀ c, (get c).variant = σ e c

/-- The database's equality of two non-`NULL` operands. -/
structure Sql where
  eq : Value → Value → Bool
  /-- Operands of one variant are equal when their values are. -/
  eq_same : ∀ a b : Value, a.variant = b.variant → eq a b = decide (a = b)

/-- The database that compares operands of different variants as unequal. -/
def Sql.strict : Sql where
  eq a b := decide (a = b)
  eq_same _ _ _ := rfl

/-! ## Conditions -/

/-- The expressions this code puts into a condition: `col.eq(value)`, `col.is_in(values)` and
`Expr::cust("1 = 0")`. -/
inductive SimpleExpr where
  | eq (col : Column) (value : Value)
  | isIn (col : Column) (values : List Value)
  | oneEqZero
deriving DecidableEq, Repr

/-- `sea_query::ConditionType`. -/
inductive ConditionType where
  | any
  | all
deriving DecidableEq, Repr

/-- `sea_query::ConditionExpression`. -/
inductive ConditionExpression where
  | condition (negate : Bool) (type : ConditionType) (conditions : List ConditionExpression)
  | simpleExpr (expr : SimpleExpr)

/-- `sea_query::Condition`. -/
structure Condition where
  negate : Bool
  conditionType : ConditionType
  conditions : List ConditionExpression

namespace Condition

/-- `Condition::all`. -/
def all : Condition := ⟨false, .all, []⟩

/-- `Condition::any`. -/
def any : Condition := ⟨false, .any, []⟩

/-- `Condition` is a `ConditionExpression` (`Into<ConditionExpression>`). -/
def expr (c : Condition) : ConditionExpression :=
  .condition c.negate c.conditionType c.conditions

/-- `Condition::add`. -/
def add (c : Condition) (e : ConditionExpression) : Condition :=
  { c with conditions := c.conditions ++ [e] }

/-- `Condition::not`. -/
def not (c : Condition) : Condition := { c with negate := !c.negate }

/-- `Condition::is_empty`. -/
def isEmpty (c : Condition) : Bool := c.conditions.isEmpty

end Condition

/-! ## Evaluation on a row -/

section Eval

variable (sql : Sql) (get : Column → Value)

/-- `a = b` in SQL. -/
def sqlEq (a b : Value) : Tri :=
  if a.isNull || b.isNull then .unknown else .ofBool (sql.eq a b)

/-- An expression on a row; `a IN (v₁, …)` is `a = v₁ OR …`. -/
def SimpleExpr.eval : SimpleExpr → Tri
  | .eq col value => sqlEq sql (get col) value
  | .isIn col values => .any (values.map (sqlEq sql (get col)))
  | .oneEqZero => .false

/-- The connective of a condition type. -/
def ConditionType.eval : ConditionType → List Tri → Tri
  | .any => .any
  | .all => .all

/-- `NOT` when the condition is negated. -/
def negateIf (negate : Bool) (t : Tri) : Tri := if negate then t.not else t

mutual

/-- A condition expression on a row. -/
def ConditionExpression.eval : ConditionExpression → Tri
  | .condition negate type conditions => negateIf negate (type.eval (evalAll conditions))
  | .simpleExpr e => e.eval sql get

def evalAll : List ConditionExpression → List Tri
  | [] => []
  | c :: cs => c.eval :: evalAll cs

end

/-- A condition on a row. -/
def Condition.eval (c : Condition) : Tri :=
  negateIf c.negate (c.conditionType.eval (evalAll sql get c.conditions))

/-- `WHERE c` keeps the row: the condition is true on it. -/
def Condition.Keeps (c : Condition) : Prop := c.eval sql get = Tri.true

instance (c : Condition) : Decidable (c.Keeps sql get) :=
  inferInstanceAs (Decidable (_ = _))

variable {sql get}

theorem evalAll_eq_map (cs : List ConditionExpression) :
    evalAll sql get cs = cs.map (ConditionExpression.eval sql get) := by
  induction cs with
  | nil => simp only [evalAll, List.map_nil]
  | cons c cs ih => simp only [evalAll, ih, List.map_cons]

@[simp] theorem eval_expr (c : Condition) :
    c.expr.eval sql get = c.eval sql get := by
  simp only [Condition.expr, ConditionExpression.eval, Condition.eval]

@[simp] theorem eval_simpleExpr (e : SimpleExpr) :
    (ConditionExpression.simpleExpr e).eval sql get = e.eval sql get := by
  simp only [ConditionExpression.eval]

@[simp] theorem eval_not (c : Condition) : c.not.eval sql get = (c.eval sql get).not := by
  unfold Condition.eval Condition.not negateIf
  cases c.negate
  · rfl
  · simp only [Bool.not_true, Bool.false_eq_true, if_false, if_true]
    cases c.conditionType.eval (evalAll sql get c.conditions) <;> rfl

theorem conditions_foldl_add {α : Type} (f : α → ConditionExpression) (l : List α)
    (c : Condition) :
    l.foldl (fun acc x => acc.add (f x)) c =
      { c with conditions := c.conditions ++ l.map f } := by
  induction l generalizing c with
  | nil => simp
  | cons x l ih =>
    rw [List.foldl_cons, ih]
    simp [Condition.add]

/-- A junction built by adding its members in order is the fold of their values. -/
theorem eval_foldl_add_all {α : Type} (f : α → Condition) (l : List α) :
    (l.foldl (fun acc x => acc.add (f x).expr) Condition.all).eval sql get =
      .all (l.map fun x => (f x).eval sql get) := by
  rw [conditions_foldl_add]
  simp [Condition.eval, Condition.all, negateIf, ConditionType.eval, evalAll_eq_map,
    Function.comp_def]

theorem eval_foldl_add_any {α : Type} (f : α → Condition) (l : List α) :
    (l.foldl (fun acc x => acc.add (f x).expr) Condition.any).eval sql get =
      .any (l.map fun x => (f x).eval sql get) := by
  rw [conditions_foldl_add]
  simp [Condition.eval, Condition.any, negateIf, ConditionType.eval, evalAll_eq_map,
    Function.comp_def]

theorem eval_all_add (e : ConditionExpression) :
    (Condition.all.add e).eval sql get = e.eval sql get := by
  simp only [Condition.eval, Condition.all, Condition.add, negateIf, ConditionType.eval,
    evalAll_eq_map, List.nil_append, List.map_cons, List.map_nil, Tri.all, List.foldr]
  cases e.eval sql get <;> rfl

theorem eval_all_add_add (e₁ e₂ : ConditionExpression) :
    ((Condition.all.add e₁).add e₂).eval sql get =
      (e₁.eval sql get).and (e₂.eval sql get) := by
  simp only [Condition.eval, Condition.all, Condition.add, negateIf, ConditionType.eval,
    evalAll_eq_map, List.nil_append, List.cons_append, List.map_cons, List.map_nil, Tri.all,
    List.foldr, Bool.false_eq_true, if_false]
  cases e₁.eval sql get <;> cases e₂.eval sql get <;> rfl

/-- The unconstrained condition keeps every row. -/
@[simp] theorem eval_all_empty : Condition.all.eval sql get = Tri.true := by
  simp [Condition.eval, Condition.all, negateIf, ConditionType.eval, evalAll_eq_map, Tri.all]

/-! ## Comparisons -/

theorem sqlEq_eq_true {a b : Value} :
    sqlEq sql a b = Tri.true ↔ a.isNull = false ∧ b.isNull = false ∧ sql.eq a b = true := by
  unfold sqlEq
  cases a.isNull <;> cases b.isNull <;> simp

theorem sqlEq_eq_false {a b : Value} :
    sqlEq sql a b = Tri.false ↔ a.isNull = false ∧ b.isNull = false ∧ sql.eq a b = false := by
  unfold sqlEq
  cases a.isNull <;> cases b.isNull <;> simp

/-- Between operands of one variant a definite comparison is value equality. -/
theorem sound_sqlEq {a b : Value} (h : a.variant = b.variant) :
    (sqlEq sql a b).Sound (decide (a = b)) where
  of_true ht := by rw [← sql.eq_same a b h]; exact (sqlEq_eq_true.mp ht).2.2
  of_false ht := by rw [← sql.eq_same a b h]; exact (sqlEq_eq_false.mp ht).2.2

end Eval

end Nestrs.Orm
