import Mathlib.Algebra.GroupWithZero.Nat
import Mathlib.Algebra.Order.Group.Nat
import Mathlib.Logic.Relation

/-!
# Worklist reachability

A worklist search over a successor function: pop a vertex, skip it when it was seen, otherwise
mark it and push its successors. The graph may have cycles, self-loops and vertices without
successors; nothing is assumed but a finite list outside which no vertex has a successor.

`run n` performs at most `n` turns of the loop and does nothing once the stack is empty, so
"the loop has ended" is `stack = []` and not a property of the fuel.

Results:
* `run_stack`: one turn for every root and every edge of the graph empties the stack;
* **`mem_run_seen_iff`**: once the stack is empty, a vertex is seen iff a root reaches it.
-/

namespace Nestrs.Lib

/-- The edge relation of a successor function. -/
def Edge {α : Type} (succ : α → List α) (x y : α) : Prop := y ∈ succ x

/-- `x` reaches `y` along edges, in any number of steps. -/
abbrev Reaches {α : Type} (succ : α → List α) : α → α → Prop := Relation.ReflTransGen (Edge succ)

/-- Steps that lower a rank never lead back. -/
theorem not_transGen_of_rank {α : Type} {r : α → α → Prop} (rank : α → Nat)
    (h : ∀ x y, r x y → rank y < rank x) (x : α) : ¬ Relation.TransGen r x x := by
  have hlt : ∀ y, Relation.TransGen r x y → rank y < rank x := by
    intro y hy
    induction hy with
    | single hxy => exact h _ _ hxy
    | tail _ hyz ih => exact lt_trans (h _ _ hyz) ih
  exact fun hx => lt_irrefl _ (hlt x hx)

/-- The loop's variables; the head of `stack` is popped first, `seen` is newest first. -/
structure Search (α : Type) where
  stack : List α
  seen : List α

namespace Search

variable {α : Type} [DecidableEq α] (succ : α → List α)

/-- One turn of the loop. -/
def step (s : Search α) : Search α :=
  match s.stack with
  | [] => s
  | x :: stack =>
    if x ∈ s.seen then ⟨stack, s.seen⟩ else ⟨(succ x).reverse ++ stack, x :: s.seen⟩

/-- At most `n` turns of the loop. -/
def run : Nat → Search α → Search α
  | 0, s => s
  | n + 1, s => run n (step succ s)

/-- The state before the first turn. -/
def init (roots : List α) : Search α := ⟨roots.reverse, []⟩

/-! ## Termination -/

/-- The work left: the stack, and the successors of the vertices of `l` not seen yet. -/
def work (l : List α) (s : Search α) : Nat :=
  s.stack.length + ((l.filter fun x => x ∉ s.seen).map fun x => (succ x).length).sum

theorem sum_unseen_mono (l seen : List α) (x : α) :
    ((l.filter fun y => y ∉ x :: seen).map fun y => (succ y).length).sum ≤
      ((l.filter fun y => y ∉ seen).map fun y => (succ y).length).sum := by
  induction l with
  | nil => simp
  | cons z l ih =>
    by_cases hz : z ∈ x :: seen
    · rw [List.filter_cons_of_neg (by simpa only [decide_not, Bool.not_eq_true',
        decide_eq_false_iff_not, not_not] using hz)]
      by_cases hz' : z ∈ seen
      · rw [List.filter_cons_of_neg (by simpa using hz')]
        exact ih
      · rw [List.filter_cons_of_pos (by simpa using hz'), List.map_cons, List.sum_cons]
        omega
    · have hz' : z ∉ seen := fun h => hz (List.mem_cons_of_mem _ h)
      rw [List.filter_cons_of_pos (by simpa using hz),
        List.filter_cons_of_pos (by simpa using hz'), List.map_cons, List.map_cons,
        List.sum_cons, List.sum_cons]
      omega

variable {succ}

/-- Marking `x` takes its successors out of the sum. -/
theorem sum_unseen_insert (l seen : List α) {x : α} (hx : x ∉ seen)
    (hl : x ∈ l ∨ succ x = []) :
    ((l.filter fun y => y ∉ x :: seen).map fun y => (succ y).length).sum + (succ x).length ≤
      ((l.filter fun y => y ∉ seen).map fun y => (succ y).length).sum := by
  rcases hl with hl | hl
  · induction l with
    | nil => exact absurd hl List.not_mem_nil
    | cons z l ih =>
      by_cases hzx : z = x
      · have hm := sum_unseen_mono succ l seen x
        rw [hzx, List.filter_cons_of_neg (by simp), List.filter_cons_of_pos (by simpa using hx),
          List.map_cons, List.sum_cons]
        omega
      · have hi := ih (List.mem_of_ne_of_mem (Ne.symm hzx) hl)
        by_cases hz : z ∈ seen
        · rw [List.filter_cons_of_neg (by simp [hz]), List.filter_cons_of_neg (by simp [hz])]
          exact hi
        · rw [List.filter_cons_of_pos (by simp [hzx, hz]),
            List.filter_cons_of_pos (by simp [hz]), List.map_cons, List.map_cons,
            List.sum_cons, List.sum_cons]
          omega
  · have hm := sum_unseen_mono succ l seen x
    rw [hl, List.length_nil]
    exact hm

/-- A turn with a non-empty stack decreases the work. -/
theorem work_step {l : List α} (hl : ∀ x, x ∈ l ∨ succ x = []) (s : Search α)
    (hs : s.stack ≠ []) : work succ l (step succ s) + 1 ≤ work succ l s := by
  obtain ⟨stack, seen⟩ := s
  cases stack with
  | nil => exact absurd rfl hs
  | cons x stack =>
    unfold step work
    by_cases hx : x ∈ seen
    · simp only [if_pos hx, List.length_cons]
      omega
    · have hsum := sum_unseen_insert l seen hx (hl x)
      simp only [if_neg hx, List.length_cons, List.length_append, List.length_reverse]
      omega

theorem run_of_stack_nil (n : Nat) {s : Search α} (hs : s.stack = []) : run succ n s = s := by
  induction n with
  | zero => rfl
  | succ n ih =>
    have hstep : step succ s = s := by
      unfold step
      rw [hs]
    rw [run, hstep, ih]

/-- As many turns as there is work empty the stack. -/
theorem run_stack {l : List α} (hl : ∀ x, x ∈ l ∨ succ x = []) (n : Nat) (s : Search α)
    (hn : work succ l s ≤ n) : (run succ n s).stack = [] := by
  induction n generalizing s with
  | zero =>
    have hlen : s.stack.length = 0 := by
      unfold work at hn
      omega
    exact List.eq_nil_of_length_eq_zero hlen
  | succ n ih =>
    by_cases hs : s.stack = []
    · rw [run_of_stack_nil _ hs]
      exact hs
    · have hw := work_step hl s hs
      exact ih (step succ s) (by omega)

/-- The work before the first turn: one turn a root and one an edge. -/
theorem work_init (l roots : List α) :
    work succ l (init roots) = roots.length + (l.map fun x => (succ x).length).sum := by
  have hall : l.filter (fun x => x ∉ ([] : List α)) = l :=
    List.filter_eq_self.mpr fun x _ => by simp
  unfold work init
  rw [hall, List.length_reverse]

/-! ## Reachability -/

/-- Everything met is reachable, and a seen vertex has its successors seen or waiting. -/
structure Inv (succ : α → List α) (roots : List α) (s : Search α) : Prop where
  reach : ∀ x, x ∈ s.seen ∨ x ∈ s.stack → ∃ r ∈ roots, Reaches succ r x
  roots : ∀ r ∈ roots, r ∈ s.seen ∨ r ∈ s.stack
  closed : ∀ x ∈ s.seen, ∀ y ∈ succ x, y ∈ s.seen ∨ y ∈ s.stack

omit [DecidableEq α] in
theorem inv_init (roots : List α) : Inv succ roots (init roots) where
  reach x hx := by
    rcases hx with hx | hx
    · exact absurd hx (List.not_mem_nil)
    · exact ⟨x, List.mem_reverse.mp hx, .refl⟩
  roots r hr := Or.inr (List.mem_reverse.mpr hr)
  closed x hx := absurd hx (List.not_mem_nil)

theorem inv_step {roots : List α} {s : Search α} (h : Inv succ roots s) :
    Inv succ roots (step succ s) := by
  obtain ⟨stack, seen⟩ := s
  cases stack with
  | nil => exact h
  | cons x stack =>
    have hpop : ∀ y, y ∈ seen ∨ y ∈ x :: stack → y = x ∨ y ∈ seen ∨ y ∈ stack := by
      intro y hy
      rcases hy with hy | hy
      · exact Or.inr (Or.inl hy)
      · rcases List.mem_cons.mp hy with hy | hy
        · exact Or.inl hy
        · exact Or.inr (Or.inr hy)
    unfold step
    by_cases hx : x ∈ seen
    · simp only [if_pos hx]
      -- the popped vertex was seen, so nothing that was met is lost
      have hkeep : ∀ y, y ∈ seen ∨ y ∈ x :: stack → y ∈ seen ∨ y ∈ stack := by
        intro y hy
        rcases hpop y hy with rfl | hy
        · exact Or.inl hx
        · exact hy
      exact ⟨fun y hy => h.reach y (hy.imp_right (List.mem_cons_of_mem x)),
        fun r hr => hkeep r (h.roots r hr), fun y hy z hz => hkeep z (h.closed y hy z hz)⟩
    · simp only [if_neg hx]
      have hkeep : ∀ y, y ∈ seen ∨ y ∈ x :: stack →
          y ∈ x :: seen ∨ y ∈ (succ x).reverse ++ stack := by
        intro y hy
        rcases hpop y hy with rfl | hy | hy
        · exact Or.inl (List.mem_cons_self)
        · exact Or.inl (List.mem_cons_of_mem _ hy)
        · exact Or.inr (List.mem_append_right _ hy)
      obtain ⟨r, hr, hrx⟩ := h.reach x (Or.inr List.mem_cons_self)
      refine ⟨fun y hy => ?_, fun r hr => hkeep r (h.roots r hr), fun y hy z hz => ?_⟩
      · rcases hy with hy | hy
        · rcases List.mem_cons.mp hy with rfl | hy
          · exact ⟨r, hr, hrx⟩
          · exact h.reach y (Or.inl hy)
        · rcases List.mem_append.mp hy with hy | hy
          · exact ⟨r, hr, hrx.tail (List.mem_reverse.mp hy)⟩
          · exact h.reach y (Or.inr (List.mem_cons_of_mem x hy))
      · rcases List.mem_cons.mp hy with rfl | hy
        · exact Or.inr (List.mem_append_left _ (List.mem_reverse.mpr hz))
        · exact hkeep z (h.closed y hy z hz)

theorem inv_run {roots : List α} (n : Nat) {s : Search α} (h : Inv succ roots s) :
    Inv succ roots (run succ n s) := by
  induction n generalizing s with
  | zero => exact h
  | succ n ih => exact ih (inv_step h)

/-- **Reachability.** Once the loop has ended, the seen vertices are those a root reaches. -/
theorem mem_run_seen_iff {roots : List α} {n : Nat}
    (hend : (run succ n (init roots)).stack = []) (x : α) :
    x ∈ (run succ n (init roots)).seen ↔ ∃ r ∈ roots, Reaches succ r x := by
  have hinv := inv_run n (inv_init roots : Inv succ roots (init roots))
  have hseen : ∀ y, y ∈ (run succ n (init roots)).seen ∨ y ∈ (run succ n (init roots)).stack →
      y ∈ (run succ n (init roots)).seen := by
    intro y hy
    rcases hy with hy | hy
    · exact hy
    · rw [hend] at hy
      exact absurd hy List.not_mem_nil
  constructor
  · intro hx
    exact hinv.reach x (Or.inl hx)
  · rintro ⟨r, hr, hrx⟩
    induction hrx with
    | refl => exact hseen r (hinv.roots r hr)
    | tail _ hyz ih => exact hseen _ (hinv.closed _ ih _ hyz)

end Search

end Nestrs.Lib
