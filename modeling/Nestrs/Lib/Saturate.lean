import Mathlib.Data.Fintype.Card
import Mathlib.Data.List.Induction
import Mathlib.Data.Set.Finite.Basic
import Mathlib.Logic.Relation
import Mathlib.Order.WellFounded

/-!
# Saturation does not depend on the order

Items become ready as others are done, and never stop being ready: `ready` is monotone in the set
of done items. A *run* does one ready item after another; it is *saturated* when no further item is
ready. Runs may look at stale information (an item found ready for fewer done items is ready for
more), skip ready items and come back to them; the order they choose is free.

* **`Run.mem_iff`**: two saturated runs have done the same items;
* `exists_waits_for_none`: if waiting has no cycles, some item left waits for none of the others;
* `exists_perm_pairwise`: and the items can be listed so that none waits for a later one.
-/

namespace Nestrs.Lib

variable {ι : Type}

/-- Each item of the list is ready when those before it are done. -/
def Run (ready : Set ι → ι → Prop) (l : List ι) : Prop :=
  ∀ pre x post, l = pre ++ x :: post → ready {y | y ∈ pre} x

/-- No item outside the list is ready when its items are done. -/
def Saturated (ready : Set ι → ι → Prop) (l : List ι) : Prop :=
  ∀ x, ready {y | y ∈ l} x → x ∈ l

namespace Run

variable {ready : Set ι → ι → Prop} {l l' : List ι}

/-- A run stays inside every saturated one: the induction is on the prefix already done. -/
theorem subset (mono : ∀ S T x, S ⊆ T → ready S x → ready T x) (h : Run ready l)
    (hs : Saturated ready l') : ∀ pre post, l = pre ++ post → ∀ x ∈ pre, x ∈ l' := by
  intro pre
  induction pre using List.reverseRecOn with
  | nil =>
    intro post _ x hx
    exact absurd hx List.not_mem_nil
  | append_singleton pre y ih =>
    intro post hl x hx
    rw [List.append_assoc] at hl
    have hpre := ih (y :: post) hl
    rcases List.mem_append.mp hx with hx | hx
    · exact hpre x hx
    · rw [List.mem_singleton] at hx
      rw [hx]
      exact hs y (mono _ _ y hpre (h pre y post hl))

/-- **Saturated runs agree.** -/
theorem mem_iff (mono : ∀ S T x, S ⊆ T → ready S x → ready T x) (h : Run ready l)
    (hs : Saturated ready l) (h' : Run ready l') (hs' : Saturated ready l') (x : ι) :
    x ∈ l ↔ x ∈ l' :=
  ⟨h.subset mono hs' l [] (List.append_nil l).symm x,
    h'.subset mono hs l' [] (List.append_nil l').symm x⟩

end Run

/-- Items that wait on each other without a cycle include one that waits for none of them. -/
theorem exists_waits_for_none {waits : ι → ι → Prop}
    (hac : ∀ x, ¬ Relation.TransGen waits x x) {l : List ι} (hl : l ≠ []) :
    ∃ x ∈ l, ∀ y ∈ l, ¬ waits x y := by
  let below : {x // x ∈ l} → {x // x ∈ l} → Prop := fun y x => Relation.TransGen waits x y
  have : IsTrans _ below := ⟨fun _ _ _ hab hbc => hbc.trans hab⟩
  have : Std.Irrefl below := ⟨fun x => hac x⟩
  have : Finite {x // x ∈ l} := l.finite_toSet.to_subtype
  obtain ⟨x, hx⟩ := List.exists_mem_of_ne_nil l hl
  obtain ⟨m, -, hmin⟩ := (Finite.wellFounded_of_trans_of_irrefl below).has_min Set.univ
    ⟨⟨x, hx⟩, trivial⟩
  exact ⟨m, m.2, fun y hy hw => hmin ⟨y, hy⟩ trivial (.single hw)⟩

/-- They can be listed so that none waits for a later one. -/
theorem exists_perm_pairwise {waits : ι → ι → Prop}
    (hac : ∀ x, ¬ Relation.TransGen waits x x) (l : List ι) :
    ∃ l' : List ι, l'.Perm l ∧ l'.Pairwise fun x y => ¬ waits x y := by
  generalize hn : l.length = n
  induction n generalizing l with
  | zero => exact ⟨[], by rw [List.eq_nil_of_length_eq_zero hn], List.Pairwise.nil⟩
  | succ n ih =>
    obtain ⟨m, hm, hnone⟩ := exists_waits_for_none hac (List.ne_nil_of_length_eq_add_one hn)
    obtain ⟨pre, post, rfl⟩ := List.append_of_mem hm
    have hlen : (pre ++ post).length = n := by
      simp only [List.length_append, List.length_cons] at hn ⊢
      omega
    obtain ⟨l', hp, hl'⟩ := ih (pre ++ post) hlen
    refine ⟨m :: l', (hp.cons m).trans List.perm_middle.symm, List.pairwise_cons.mpr ⟨?_, hl'⟩⟩
    intro y hy
    have hy' := hp.mem_iff.mp hy
    exact hnone y (List.perm_middle.mem_iff.mpr (List.mem_cons_of_mem m hy'))

end Nestrs.Lib
