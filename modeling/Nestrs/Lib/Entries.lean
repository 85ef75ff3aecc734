import Mathlib.Order.Lattice

/-!
# Entries in the order of their keys

A map as the list of its entries, ascending by key. Looking a key up is `List.lookup`.

Results:
* **`lookup_insert`**: an insertion changes what is found under its own key, and nothing else;
* `ascending_insert`: it keeps the entries ascending, so that no key is there twice.
-/

namespace Nestrs.Lib.Entries

variable {κ β : Type}

section Insert

variable [LT κ] [DecidableLT κ] [DecidableEq κ]

/-- The entry goes before the first greater key, and takes the place of one with its own key. -/
def insert : List (κ × β) → κ → β → List (κ × β)
  | [], key, value => [(key, value)]
  | (k, v) :: entries, key, value =>
    if key < k then (key, value) :: (k, v) :: entries
    else if key = k then (key, value) :: entries
    else (k, v) :: insert entries key value

/-- The entries inserted one after the other. -/
def ofList (fields : List (κ × β)) : List (κ × β) :=
  fields.foldl (fun entries field => insert entries field.1 field.2) []

theorem lookup_insert_self (entries : List (κ × β)) (key : κ) (value : β) :
    (insert entries key value).lookup key = some value := by
  induction entries with
  | nil => simp [insert]
  | cons e entries ih =>
    unfold insert
    by_cases hlt : key < e.1
    · rw [if_pos hlt, List.lookup_cons_self]
    · rw [if_neg hlt]
      by_cases heq : key = e.1
      · rw [if_pos heq, List.lookup_cons_self]
      · rw [if_neg heq, List.lookup_cons, beq_eq_false_iff_ne.mpr heq, ih]

theorem lookup_insert_of_ne (entries : List (κ × β)) {key k : κ} (value : β) (h : k ≠ key) :
    (insert entries key value).lookup k = entries.lookup k := by
  have hskip (l : List (κ × β)) : ((key, value) :: l).lookup k = l.lookup k := by
    rw [List.lookup_cons, beq_eq_false_iff_ne.mpr h]
  induction entries with
  | nil => exact hskip []
  | cons e entries ih =>
    unfold insert
    by_cases hlt : key < e.1
    · rw [if_pos hlt, hskip]
    · rw [if_neg hlt]
      by_cases heq : key = e.1
      · rw [if_pos heq, hskip, List.lookup_cons, ← heq, beq_eq_false_iff_ne.mpr h]
      · rw [if_neg heq, List.lookup_cons, List.lookup_cons, ih]

/-- **An insertion is found under its key, and changes no other.** -/
@[simp] theorem lookup_insert (entries : List (κ × β)) (key k : κ) (value : β) :
    (insert entries key value).lookup k = if k = key then some value else entries.lookup k := by
  by_cases h : k = key
  · rw [if_pos h, h, lookup_insert_self]
  · rw [if_neg h, lookup_insert_of_ne entries value h]

theorem mem_insert {entries : List (κ × β)} {key : κ} {value : β} {e : κ × β}
    (h : e ∈ insert entries key value) : e = (key, value) ∨ e ∈ entries := by
  induction entries with
  | nil => exact .inl (List.mem_singleton.mp h)
  | cons e' entries ih =>
    unfold insert at h
    split at h
    · exact List.mem_cons.mp h
    · split at h
      · rcases List.mem_cons.mp h with h | h
        · exact .inl h
        · exact .inr (List.mem_cons_of_mem _ h)
      · rcases List.mem_cons.mp h with rfl | h
        · exact .inr List.mem_cons_self
        · exact (ih h).imp_right (List.mem_cons_of_mem _)

theorem mem_of_mem_ofList {fields : List (κ × β)} {e : κ × β} (h : e ∈ ofList fields) :
    e ∈ fields := by
  revert e
  refine List.foldlRecOn fields _ (motive := fun entries => ∀ {e}, e ∈ entries → e ∈ fields)
    (fun h => absurd h List.not_mem_nil) fun entries ih field hfield e he => ?_
  rcases mem_insert he with rfl | he
  · exact hfield
  · exact ih he

end Insert

section Ascending

variable [LinearOrder κ]

/-- Every key is less than those after it. -/
def Ascending (entries : List (κ × β)) : Prop := entries.Pairwise fun e e' => e.1 < e'.1

theorem ascending_insert {entries : List (κ × β)} (h : Ascending entries) (key : κ) (value : β) :
    Ascending (insert entries key value) := by
  induction entries with
  | nil => exact List.pairwise_singleton _ _
  | cons e entries ih =>
    obtain ⟨hhead, htail⟩ := List.pairwise_cons.mp h
    unfold insert
    by_cases hlt : key < e.1
    · rw [if_pos hlt]
      refine List.pairwise_cons.mpr ⟨fun e' he' => ?_, h⟩
      rcases List.mem_cons.mp he' with rfl | he'
      · exact hlt
      · exact lt_trans hlt (hhead e' he')
    · rw [if_neg hlt]
      by_cases heq : key = e.1
      · rw [if_pos heq]
        exact List.pairwise_cons.mpr ⟨fun e' he' => heq ▸ hhead e' he', htail⟩
      · rw [if_neg heq]
        refine List.pairwise_cons.mpr ⟨fun e' he' => ?_, ih htail⟩
        rcases mem_insert he' with rfl | he'
        · exact lt_of_le_of_ne (not_lt.mp hlt) (Ne.symm heq)
        · exact hhead e' he'

theorem ascending_ofList (fields : List (κ × β)) : Ascending (ofList fields) :=
  List.foldlRecOn fields _ List.Pairwise.nil fun _ h field _ => ascending_insert h field.1 field.2

end Ascending

end Nestrs.Lib.Entries
