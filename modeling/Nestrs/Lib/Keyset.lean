import Mathlib.Data.List.Nodup
import Mathlib.Order.Lattice

/-!
# Walks by key

A collection is read in pages: each read returns the first few elements beyond a cursor, in
ascending order of their keys, and the cursor of the next read is the last key returned. The
collection may be a different one at every read. Elements are told apart by their keys.

Results, for a walk that starts without a cursor and ends at a read with nothing left:
* `Walks.ascending`: the keys of all pages together are strictly ascending, so none comes twice;
* `Walks.complete`: a key that is there at every read is among them.
-/

namespace Nestrs.Lib

variable {α κ : Type} [LinearOrder κ] (key : α → κ)

/-- The element lies beyond the cursor. -/
def Beyond (cursor : Option κ) (x : α) : Prop := ∀ c, cursor = some c → c < key x

/-- The elements of a collection beyond the cursor, ascending. -/
structure Window (rows : List α) (cursor : Option κ) (window : List α) : Prop where
  ascending : window.Pairwise fun x y => key x < key y
  mem_iff : ∀ x, x ∈ window ↔ x ∈ rows ∧ Beyond key cursor x

/-- `Walks rows size i cursor pages`: reading `pages` from the `i`-th read on, the `i`-th read being
of the collection `rows i` with at most `size i` elements. -/
inductive Walks (rows : Nat → List α) (size : Nat → Nat) : Nat → Option κ → List (List α) → Prop
  | last {i : Nat} {cursor : Option κ} {window : List α}
      (hwindow : Window key (rows i) cursor window) (hlast : window.length ≤ size i) :
      Walks rows size i cursor [window]
  | more {i : Nat} {cursor : Option κ} {window : List α} {a : α} {pages : List (List α)}
      (hwindow : Window key (rows i) cursor window) (hmore : size i < window.length)
      (hcursor : (window.take (size i)).getLast? = some a)
      (rest : Walks rows size (i + 1) (some (key a)) pages) :
      Walks rows size i cursor (window.take (size i) :: pages)

variable {key}

/-- What a page leaves out lies beyond all it has. -/
theorem lt_of_not_mem_take {window : List α} (h : window.Pairwise fun x y => key x < key y)
    {n : Nat} {x y : α} (hx : x ∈ window.take n) (hy : y ∈ window) (hy' : y ∉ window.take n) :
    key x < key y := by
  rw [← List.take_append_drop n window] at h hy
  rcases List.mem_append.mp hy with hy | hy
  · exact absurd hy hy'
  · exact (List.pairwise_append.mp h).2.2 x hx y hy

/-- The cursor after a page is its greatest key. -/
theorem le_of_getLast? {l : List α} (h : l.Pairwise fun x y => key x < key y) {a x : α}
    (ha : l.getLast? = some a) (hx : x ∈ l) : key x ≤ key a := by
  obtain ⟨l', rfl⟩ := List.getLast?_eq_some_iff.mp ha
  rcases List.mem_append.mp hx with hx | hx
  · exact le_of_lt ((List.pairwise_append.mp h).2.2 x hx a (List.mem_singleton_self a))
  · rw [List.mem_singleton.mp hx]

section Walk

variable {rows : Nat → List α} {size : Nat → Nat} {i : Nat} {cursor : Option κ}
  {pages : List (List α)}

namespace Walks

/-- Every element read lies beyond the cursor. -/
theorem beyond (h : Walks key rows size i cursor pages) {x : α} (hx : x ∈ pages.flatten) :
    Beyond key cursor x := by
  induction h with
  | last hwindow _ =>
    rw [List.flatten_singleton] at hx
    exact ((hwindow.mem_iff x).mp hx).2
  | more hwindow _ hcursor _ ih =>
    rw [List.flatten_cons, List.mem_append] at hx
    rcases hx with hx | hx
    · exact ((hwindow.mem_iff x).mp (List.mem_of_mem_take hx)).2
    · intro c hc
      have ha := ((hwindow.mem_iff _).mp (List.mem_of_mem_take (List.mem_of_getLast? hcursor))).2
      exact lt_trans (ha c hc) (ih hx _ rfl)

/-- **The keys read ascend** over all pages. -/
theorem ascending (h : Walks key rows size i cursor pages) :
    pages.flatten.Pairwise fun x y => key x < key y := by
  induction h with
  | last hwindow _ =>
    rw [List.flatten_singleton]
    exact hwindow.ascending
  | @more i cursor window a pages hwindow hmore hcursor rest ih =>
    rw [List.flatten_cons, List.pairwise_append]
    have htake := hwindow.ascending.sublist (List.take_sublist (size i) window)
    refine ⟨htake, ih, fun x hx y hy => ?_⟩
    exact lt_of_le_of_lt (le_of_getLast? htake hcursor hx) (rest.beyond hy _ rfl)

/-- **A key that is there at every read is read**: the walk does not pass over it. -/
theorem complete (h : Walks key rows size i cursor pages) {k : κ}
    (hk : ∀ j, i ≤ j → j < i + pages.length → ∃ x ∈ rows j, key x = k)
    (hbeyond : ∀ c, cursor = some c → c < k) : ∃ x ∈ pages.flatten, key x = k := by
  induction h with
  | @last i cursor window hwindow hlast =>
    obtain ⟨x, hx, rfl⟩ := hk i (le_refl i) (by simp)
    exact ⟨x, by rw [List.flatten_singleton]; exact (hwindow.mem_iff x).mpr ⟨hx, hbeyond⟩, rfl⟩
  | @more i cursor window a pages hwindow hmore hcursor rest ih =>
    rw [List.length_cons] at hk
    obtain ⟨x, hx, hxk⟩ := hk i (le_refl i) (by omega)
    have hxw : x ∈ window := (hwindow.mem_iff x).mpr ⟨hx, fun c hc => hxk ▸ hbeyond c hc⟩
    by_cases hpage : x ∈ window.take (size i)
    · exact ⟨x, by rw [List.flatten_cons]; exact List.mem_append_left _ hpage, hxk⟩
    · -- the page ends before the key, so the next read starts before it
      have hafter : key a < k :=
        hxk ▸ lt_of_not_mem_take hwindow.ascending (List.mem_of_getLast? hcursor) hxw hpage
      obtain ⟨y, hy, hyk⟩ := ih (fun j hj hj' => hk j (by omega) (by omega)) (by
        rintro c hc
        cases hc
        exact hafter)
      exact ⟨y, by rw [List.flatten_cons]; exact List.mem_append_right _ hy, hyk⟩

/-- Every page is read from the collection of its turn, and is no longer than its size. -/
theorem page (h : Walks key rows size i cursor pages) (j : Nat) (hj : j < pages.length) :
    (pages.get ⟨j, hj⟩).length ≤ size (i + j) ∧ ∀ x ∈ pages.get ⟨j, hj⟩, x ∈ rows (i + j) := by
  induction h generalizing j with
  | @last i cursor window hwindow hlast =>
    obtain rfl : j = 0 := by
      rw [List.length_singleton] at hj
      omega
    exact ⟨hlast, fun x hx => ((hwindow.mem_iff x).mp hx).1⟩
  | @more i cursor window a pages hwindow hmore hcursor rest ih =>
    cases j with
    | zero =>
      refine ⟨?_, fun x hx => ((hwindow.mem_iff x).mp (List.mem_of_mem_take hx)).1⟩
      show (window.take (size i)).length ≤ size i
      rw [List.length_take]
      omega
    | succ j =>
      have hnext := ih j (by rw [List.length_cons] at hj; omega)
      rw [show i + (j + 1) = i + 1 + j by omega]
      exact hnext

end Walks

end Walk

end Nestrs.Lib
