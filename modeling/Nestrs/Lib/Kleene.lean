import Mathlib.Data.List.Basic

/-!
# Three-valued logic

Kleene's strong three-valued connectives over `Tri`, and their folds over lists: the truth
tables SQL uses for `AND`, `OR` and `NOT`. A fold is characterised by its two definite values
only (`all_map_eq_true`, `all_map_eq_false` and their duals); everything else follows from these.

`Sound t b` says that a definite `t` agrees with the boolean `b`. The connectives keep it
(`sound_not`, `sound_all`, `sound_any`), which is the induction step of every comparison of a
three-valued reading with a two-valued one.
-/

namespace Nestrs.Lib

/-- A truth value: true, false or unknown. -/
inductive Tri where
  | true
  | false
  | unknown
deriving DecidableEq, Repr

namespace Tri

/-- A boolean as a definite truth value. -/
def ofBool : Bool → Tri
  | Bool.true => Tri.true
  | Bool.false => Tri.false

/-- `NOT`. -/
def not : Tri → Tri
  | Tri.true => Tri.false
  | Tri.false => Tri.true
  | unknown => unknown

/-- `AND`: false wins over unknown. -/
def and : Tri → Tri → Tri
  | Tri.false, _ => Tri.false
  | _, Tri.false => Tri.false
  | Tri.true, Tri.true => Tri.true
  | _, _ => unknown

/-- `OR`: true wins over unknown. -/
def or : Tri → Tri → Tri
  | Tri.true, _ => Tri.true
  | _, Tri.true => Tri.true
  | Tri.false, Tri.false => Tri.false
  | _, _ => unknown

/-- The conjunction of a list; the empty one is true. -/
def all (ts : List Tri) : Tri := ts.foldr and Tri.true

/-- The disjunction of a list; the empty one is false. -/
def any (ts : List Tri) : Tri := ts.foldr or Tri.false

/-! ## Definite values -/

@[simp] theorem ofBool_eq_true {b : Bool} : ofBool b = Tri.true ↔ b = Bool.true := by
  cases b <;> simp [ofBool]

@[simp] theorem ofBool_eq_false {b : Bool} : ofBool b = Tri.false ↔ b = Bool.false := by
  cases b <;> simp [ofBool]

@[simp] theorem not_eq_true {t : Tri} : t.not = Tri.true ↔ t = Tri.false := by
  cases t <;> simp [not]

@[simp] theorem not_eq_false {t : Tri} : t.not = Tri.false ↔ t = Tri.true := by
  cases t <;> simp [not]

theorem and_eq_true {s t : Tri} : s.and t = Tri.true ↔ s = Tri.true ∧ t = Tri.true := by
  cases s <;> cases t <;> simp [and]

theorem and_eq_false {s t : Tri} : s.and t = Tri.false ↔ s = Tri.false ∨ t = Tri.false := by
  cases s <;> cases t <;> simp [and]

theorem or_eq_true {s t : Tri} : s.or t = Tri.true ↔ s = Tri.true ∨ t = Tri.true := by
  cases s <;> cases t <;> simp [or]

theorem or_eq_false {s t : Tri} : s.or t = Tri.false ↔ s = Tri.false ∧ t = Tri.false := by
  cases s <;> cases t <;> simp [or]

section Folds

variable {α : Type} {l : List α} {f : α → Tri}

theorem all_map_eq_true : all (l.map f) = Tri.true ↔ ∀ x ∈ l, f x = Tri.true := by
  induction l with
  | nil => simp [all]
  | cons x l ih =>
    rw [List.forall_mem_cons, ← ih]
    exact and_eq_true

theorem all_map_eq_false : all (l.map f) = Tri.false ↔ ∃ x ∈ l, f x = Tri.false := by
  induction l with
  | nil => simp [all]
  | cons x l ih =>
    simp only [List.mem_cons, exists_eq_or_imp, ← ih]
    exact and_eq_false

theorem any_map_eq_true : any (l.map f) = Tri.true ↔ ∃ x ∈ l, f x = Tri.true := by
  induction l with
  | nil => simp [any]
  | cons x l ih =>
    simp only [List.mem_cons, exists_eq_or_imp, ← ih]
    exact or_eq_true

theorem any_map_eq_false : any (l.map f) = Tri.false ↔ ∀ x ∈ l, f x = Tri.false := by
  induction l with
  | nil => simp [any]
  | cons x l ih =>
    rw [List.forall_mem_cons, ← ih]
    exact or_eq_false

theorem eq_of_definite {s t : Tri} (ht : s = Tri.true ↔ t = Tri.true)
    (hf : s = Tri.false ↔ t = Tri.false) : s = t := by
  cases s <;> cases t <;> simp_all

/-- A disjunction depends on the members of its list only. -/
theorem any_map_congr {l' : List α} (h : ∀ x, x ∈ l ↔ x ∈ l') :
    any (l.map f) = any (l'.map f) := by
  refine eq_of_definite ?_ ?_
  · simp only [any_map_eq_true, h]
  · simp only [any_map_eq_false, h]

end Folds

/-! ## Agreement with a boolean -/

/-- A definite truth value agrees with the boolean; unknown agrees with both. -/
structure Sound (t : Tri) (b : Bool) : Prop where
  of_true : t = Tri.true → b = Bool.true
  of_false : t = Tri.false → b = Bool.false

theorem sound_not {t : Tri} {b : Bool} (h : Sound t b) : Sound t.not (!b) where
  of_true ht := by rw [h.of_false (not_eq_true.mp ht)]; rfl
  of_false ht := by rw [h.of_true (not_eq_false.mp ht)]; rfl

theorem sound_all {α : Type} {l : List α} {f : α → Tri} {g : α → Bool}
    (h : ∀ x ∈ l, Sound (f x) (g x)) : Sound (all (l.map f)) (l.all g) where
  of_true ht := by
    rw [List.all_eq_true]
    intro x hx
    exact (h x hx).of_true (all_map_eq_true.mp ht x hx)
  of_false ht := by
    obtain ⟨x, hx, hf⟩ := all_map_eq_false.mp ht
    rw [List.all_eq_false]
    exact ⟨x, hx, by rw [(h x hx).of_false hf]; simp⟩

theorem sound_any {α : Type} {l : List α} {f : α → Tri} {g : α → Bool}
    (h : ∀ x ∈ l, Sound (f x) (g x)) : Sound (any (l.map f)) (l.any g) where
  of_true ht := by
    obtain ⟨x, hx, hf⟩ := any_map_eq_true.mp ht
    exact List.any_eq_true.mpr ⟨x, hx, (h x hx).of_true hf⟩
  of_false ht := by
    rw [List.any_eq_false]
    intro x hx
    rw [(h x hx).of_false (any_map_eq_false.mp ht x hx)]
    simp

end Tri

end Nestrs.Lib
