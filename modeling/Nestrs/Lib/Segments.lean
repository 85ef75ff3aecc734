import Mathlib.Data.List.DropRight

/-!
# Paths of segments

A path is a list of symbols, one of which separates segments: `List.splitOn` reads the segments of
a path, `List.intercalate` writes a path of them. Two paths are joined by one separator, whatever
separators the first ends with and the second begins with.

Results:
* **`join_assoc`**: joining is associative;
* `components_join`: the segments with something in them are those of the first path and then those
  of the second;
* **`map_map`**: a rewriting of the segments can be undone on a path if it can on each segment;
* `names_map`: the names in brackets of a rewritten path are those of its rewritten segments.
-/

namespace Nestrs.Lib.Segments

variable {α : Type} [DecidableEq α]

/-! ## Joining -/

section Joining

variable (sep : α)

/-- The path without the separators it begins with. -/
def trimStart (l : List α) : List α := l.dropWhile (· == sep)

/-- The path without the separators it ends with. -/
def trimEnd (l : List α) : List α := l.rdropWhile (· == sep)

/-- Two paths with one separator between them. A path of nothing but separators adds nothing to
the other, and two of them make one separator. -/
def join (l m : List α) : List α :=
  if trimStart sep m = [] then if trimEnd sep l = [] then [sep] else trimEnd sep l
  else trimEnd sep l ++ sep :: trimStart sep m

/-- The segments with something in them. -/
def components (l : List α) : List (List α) := (l.splitOn sep).filter fun s => s ≠ []

variable {sep} {l m : List α}

theorem trimStart_eq_nil_iff : trimStart sep l = [] ↔ ∀ x ∈ l, x = sep := by
  simp [trimStart]

theorem trimEnd_eq_nil_iff : trimEnd sep l = [] ↔ ∀ x ∈ l, x = sep := by
  simp [trimEnd, List.rdropWhile_eq_nil_iff]

theorem trimEnd_eq_nil_iff_trimStart : trimEnd sep l = [] ↔ trimStart sep l = [] :=
  trimEnd_eq_nil_iff.trans trimStart_eq_nil_iff.symm

theorem trimStart_trimStart : trimStart sep (trimStart sep l) = trimStart sep l :=
  List.dropWhile_idempotent _ _

theorem trimEnd_trimEnd : trimEnd sep (trimEnd sep l) = trimEnd sep l :=
  List.rdropWhile_idempotent _ _

theorem trimStart_cons_self : trimStart sep (sep :: l) = trimStart sep l := by
  simp [trimStart]

theorem trimStart_append (h : trimStart sep l ≠ []) :
    trimStart sep (l ++ m) = trimStart sep l ++ m := by
  unfold trimStart at h ⊢
  rw [List.dropWhile_append, if_neg (by simpa using h)]

theorem trimStart_append_of_forall (h : ∀ x ∈ l, x = sep) :
    trimStart sep (l ++ m) = trimStart sep m :=
  List.dropWhile_append_of_pos fun x hx => by simp [h x hx]

theorem trimEnd_append (h : trimEnd sep m ≠ []) :
    trimEnd sep (l ++ m) = l ++ trimEnd sep m := by
  unfold trimEnd List.rdropWhile at h ⊢
  rw [List.reverse_append, List.dropWhile_append,
    if_neg (by simpa using h), List.reverse_append, List.reverse_reverse]

variable (sep) in
/-- What `trimStart` drops is separators. -/
theorem exists_trimStart (l : List α) :
    ∃ u, l = u ++ trimStart sep l ∧ ∀ x ∈ u, x = sep :=
  ⟨l.takeWhile (· == sep), List.takeWhile_append_dropWhile.symm, fun x hx => by
    simpa using List.mem_takeWhile_imp hx⟩

variable (sep) in
/-- What `trimEnd` drops is separators. -/
theorem exists_trimEnd (l : List α) : ∃ u, l = trimEnd sep l ++ u ∧ ∀ x ∈ u, x = sep :=
  ⟨l.rtakeWhile (· == sep), List.rdropWhile_append_rtakeWhile.symm, fun x hx => by
    simpa using List.mem_rtakeWhile_imp hx⟩

/-- It does not matter which end is trimmed first. -/
theorem trimEnd_trimStart (l : List α) :
    trimEnd sep (trimStart sep l) = trimStart sep (trimEnd sep l) := by
  by_cases hnil : trimStart sep l = []
  · rw [hnil, trimEnd_eq_nil_iff_trimStart.mpr hnil]
    simp [trimStart, trimEnd]
  · obtain ⟨u, hl, hu⟩ := exists_trimStart sep l
    obtain ⟨v, hm, hv⟩ := exists_trimEnd sep (trimStart sep l)
    have hne : trimEnd sep (trimStart sep l) ≠ [] := by
      rw [Ne, trimEnd_eq_nil_iff_trimStart, trimStart_trimStart]
      exact hnil
    have hstart : trimStart sep (trimEnd sep (trimStart sep l)) ≠ [] := by
      rwa [Ne, ← trimEnd_eq_nil_iff_trimStart, trimEnd_trimEnd]
    -- The trimmed core begins like `trimStart sep l`, which is trimmed at the start already.
    have hcore : trimStart sep (trimEnd sep (trimStart sep l)) = trimEnd sep (trimStart sep l) := by
      have h : trimStart sep (trimStart sep l) = trimStart sep l := trimStart_trimStart
      rw [hm, trimStart_append hstart] at h
      exact List.append_cancel_right h
    have hend : trimEnd sep l = u ++ trimEnd sep (trimStart sep l) := by
      conv_lhs => rw [hl]
      exact trimEnd_append hne
    rw [hend, trimStart_append_of_forall hu, hcore]

/-- The second path has something in it, or it adds nothing. -/
theorem trimEnd_join (l m : List α) :
    trimEnd sep (join sep l m) =
      if trimStart sep m = [] then trimEnd sep l
      else trimEnd sep l ++ sep :: trimEnd sep (trimStart sep m) := by
  unfold join
  by_cases hm : trimStart sep m = []
  · rw [if_pos hm, if_pos hm]
    by_cases hl : trimEnd sep l = []
    · rw [if_pos hl, hl]
      simp [trimEnd]
    · rw [if_neg hl, trimEnd_trimEnd]
  · rw [if_neg hm, if_neg hm]
    have hne : trimEnd sep (trimStart sep m) ≠ [] := by
      rwa [Ne, trimEnd_eq_nil_iff_trimStart, trimStart_trimStart]
    have hcons : trimEnd sep (sep :: trimStart sep m) = sep :: trimEnd sep (trimStart sep m) :=
      trimEnd_append (l := [sep]) hne
    rw [trimEnd_append (by rw [hcons]; exact List.cons_ne_nil _ _), hcons]

theorem trimStart_join (l m : List α) :
    trimStart sep (join sep l m) =
      if trimEnd sep l = [] then trimStart sep m
      else if trimStart sep m = [] then trimStart sep (trimEnd sep l)
      else trimStart sep (trimEnd sep l) ++ sep :: trimStart sep m := by
  unfold join
  by_cases hl : trimEnd sep l = []
  · rw [if_pos hl, if_pos hl, hl, List.nil_append]
    by_cases hm : trimStart sep m = []
    · rw [if_pos hm, hm]
      simp [trimStart]
    · rw [if_neg hm, trimStart_cons_self, trimStart_trimStart]
  · rw [if_neg hl, if_neg hl]
    by_cases hm : trimStart sep m = []
    · rw [if_pos hm, if_pos hm]
    · have hne : trimStart sep (trimEnd sep l) ≠ [] := by
        rwa [Ne, ← trimEnd_eq_nil_iff_trimStart, trimEnd_trimEnd]
      rw [if_neg hm, if_neg hm, trimStart_append hne]

/-- A join depends on the end of the first path and the start of the second only. -/
theorem join_congr {l' m' : List α} (hl : trimEnd sep l = trimEnd sep l')
    (hm : trimStart sep m = trimStart sep m') : join sep l m = join sep l' m' := by
  unfold join
  rw [hl, hm]

theorem join_of_ne_nil (l : List α) (h : trimStart sep m ≠ []) :
    join sep l m = trimEnd sep l ++ sep :: trimStart sep m :=
  if_neg h

/-- **Joining is associative.** -/
theorem join_assoc (l m n : List α) :
    join sep (join sep l m) n = join sep l (join sep m n) := by
  by_cases hm : trimStart sep m = []
  · -- The path in the middle adds nothing, to either side.
    have hleft : trimEnd sep (join sep l m) = trimEnd sep l := by
      rw [trimEnd_join, if_pos hm]
    have hright : trimStart sep (join sep m n) = trimStart sep n := by
      rw [trimStart_join, if_pos (trimEnd_eq_nil_iff_trimStart.mpr hm)]
    rw [join_congr hleft rfl, join_congr rfl hright]
  · have hm' : trimEnd sep m ≠ [] := mt trimEnd_eq_nil_iff_trimStart.mp hm
    have hcore : trimStart sep (trimEnd sep m) ≠ [] := by
      rwa [Ne, ← trimEnd_eq_nil_iff_trimStart, trimEnd_trimEnd]
    have hleft : trimEnd sep (join sep l m) =
        trimEnd sep l ++ sep :: trimStart sep (trimEnd sep m) := by
      rw [trimEnd_join, if_neg hm, trimEnd_trimStart]
    by_cases hn : trimStart sep n = []
    · have hright : trimStart sep (join sep m n) = trimStart sep (trimEnd sep m) := by
        rw [trimStart_join, if_neg hm', if_pos hn]
      have hne : trimEnd sep (join sep l m) ≠ [] := by
        rw [hleft]
        simp
      calc join sep (join sep l m) n = trimEnd sep (join sep l m) := by
            rw [join, if_pos hn, if_neg hne]
        _ = trimEnd sep l ++ sep :: trimStart sep (join sep m n) := by rw [hleft, hright]
        _ = join sep l (join sep m n) := (join_of_ne_nil l (by rwa [hright])).symm
    · have hright : trimStart sep (join sep m n) =
          trimStart sep (trimEnd sep m) ++ sep :: trimStart sep n := by
        rw [trimStart_join, if_neg hm', if_neg hn]
      calc join sep (join sep l m) n = trimEnd sep (join sep l m) ++ sep :: trimStart sep n :=
            join_of_ne_nil _ hn
        _ = trimEnd sep l ++ sep :: trimStart sep (join sep m n) := by
            rw [hleft, hright, List.append_assoc, List.cons_append]
        _ = join sep l (join sep m n) := (join_of_ne_nil l (by simp [hright])).symm

/-! ### What a join is made of -/

theorem components_append_cons (l m : List α) :
    components sep (l ++ sep :: m) = components sep l ++ components sep m := by
  unfold components
  rw [List.splitOn_append_cons_self, List.filter_append]

theorem components_nil : components sep ([] : List α) = [] := by
  simp [components]

theorem components_of_forall_append {u : List α} (hu : ∀ x ∈ u, x = sep) (l : List α) :
    components sep (u ++ l) = components sep l := by
  induction u with
  | nil => rfl
  | cons x u ih =>
    have hsplit : components sep (sep :: (u ++ l)) = components sep (u ++ l) := by
      simpa [components_nil] using components_append_cons [] (u ++ l)
    rw [hu x (by simp), List.cons_append, hsplit, ih fun y hy => hu y (by simp [hy])]

theorem components_append_of_forall {u : List α} (hu : ∀ x ∈ u, x = sep) (l : List α) :
    components sep (l ++ u) = components sep l := by
  induction u generalizing l with
  | nil => rw [List.append_nil]
  | cons x u ih =>
    have hnone : components sep u = [] := by
      simpa [components_nil] using ih (fun y hy => hu y (by simp [hy])) []
    rw [hu x (by simp), components_append_cons, hnone, List.append_nil]

theorem components_trimStart (l : List α) :
    components sep (trimStart sep l) = components sep l := by
  obtain ⟨u, hl, hu⟩ := exists_trimStart sep l
  conv_rhs => rw [hl, components_of_forall_append hu]

theorem components_trimEnd (l : List α) : components sep (trimEnd sep l) = components sep l := by
  obtain ⟨u, hl, hu⟩ := exists_trimEnd sep l
  conv_rhs => rw [hl, components_append_of_forall hu]

/-- Joining loses nothing and adds nothing but separators. -/
theorem components_join (l m : List α) :
    components sep (join sep l m) = components sep l ++ components sep m := by
  by_cases hm : trimStart sep m = []
  · have hnone : components sep m = [] := by rw [← components_trimStart, hm, components_nil]
    rw [hnone, List.append_nil, ← components_trimEnd, trimEnd_join, if_pos hm, components_trimEnd]
  · rw [join_of_ne_nil l hm, components_append_cons, components_trimEnd, components_trimStart]

end Joining

/-! ## Rewriting the segments -/

section Rewriting

variable {sep : α} {l m s : List α}

theorem mem_splitOn_cons {x : α} (h : s ∈ (x :: l).splitOn sep) :
    (x = sep ∧ (s = [] ∨ s ∈ l.splitOn sep)) ∨
      (x ≠ sep ∧ (s ∈ l.splitOn sep ∨ ∃ t ∈ l.splitOn sep, s = x :: t)) := by
  rw [List.splitOn_cons_eq_if_modifyHead] at h
  by_cases hx : x = sep
  · rw [if_pos (by simpa using hx), List.mem_cons] at h
    exact .inl ⟨hx, h⟩
  · rw [if_neg (by simpa using hx)] at h
    refine .inr ⟨hx, ?_⟩
    cases hsplit : l.splitOn sep with
    | nil => exact absurd hsplit (List.splitOn_ne_nil _ _)
    | cons t ts =>
      rw [hsplit, List.modifyHead_cons, List.mem_cons] at h
      rcases h with rfl | h
      · exact .inr ⟨t, List.mem_cons_self, rfl⟩
      · exact .inl (List.mem_cons_of_mem _ h)

/-- No segment holds the separator. -/
theorem notMem_of_mem_splitOn (h : s ∈ l.splitOn sep) : sep ∉ s := by
  induction l generalizing s with
  | nil =>
    rw [List.splitOn_nil, List.mem_singleton] at h
    simp [h]
  | cons x l ih =>
    rcases mem_splitOn_cons h with ⟨-, rfl | h⟩ | ⟨hx, h | ⟨t, ht, rfl⟩⟩
    · simp
    · exact ih h
    · exact ih h
    · simp [Ne.symm hx, ih ht]

/-- A segment holds symbols of the path. -/
theorem subset_of_mem_splitOn (h : s ∈ l.splitOn sep) : s ⊆ l := by
  induction l generalizing s with
  | nil =>
    rw [List.splitOn_nil, List.mem_singleton] at h
    simp [h]
  | cons x l ih =>
    rcases mem_splitOn_cons h with ⟨-, rfl | h⟩ | ⟨-, h | ⟨t, ht, rfl⟩⟩
    · exact List.nil_subset _
    · exact List.subset_cons_of_subset x (ih h)
    · exact List.subset_cons_of_subset x (ih h)
    · exact List.cons_subset_cons x (ih ht)

variable (sep) in
/-- The path with every segment rewritten. -/
def map (f : List α → List α) (l : List α) : List α :=
  [sep].intercalate ((l.splitOn sep).map f)

/-- The segments of a rewritten path are the rewritten segments. -/
theorem splitOn_map {f : List α → List α} (hf : ∀ s ∈ l.splitOn sep, sep ∉ f s) :
    (map sep f l).splitOn sep = (l.splitOn sep).map f :=
  List.splitOn_intercalate sep (by simpa using hf) (by simp [List.splitOn_ne_nil])

/-- **A rewriting that can be undone on the segments of a path can be undone on the path.** -/
theorem map_map {f g : List α → List α} (hsep : ∀ s ∈ l.splitOn sep, sep ∉ f s)
    (hg : ∀ s ∈ l.splitOn sep, g (f s) = s) : map sep g (map sep f l) = l := by
  have hback : ((l.splitOn sep).map f).map g = l.splitOn sep := by
    rw [List.map_map]
    exact (List.map_congr_left hg).trans (List.map_id _)
  rw [map, splitOn_map hsep, hback, List.intercalate_splitOn]

end Rewriting

/-! ## Names in brackets -/

section Names

variable (opening closing : α)

/-- The names in brackets: from an opening bracket, if there is one open, to the next closing one.
`name` is what has been read of the name since. -/
def readNames : Option (List α) → List α → List (List α)
  | _, [] => []
  | none, x :: l => if x = opening then readNames (some []) l else readNames none l
  | some name, x :: l =>
    if x = closing then name :: readNames none l else readNames (some (name ++ [x])) l

def names (l : List α) : List (List α) := readNames opening closing none l

variable {opening closing}

theorem names_nil : names opening closing [] = [] := rfl

theorem names_append_of_notMem {s : List α} (h : opening ∉ s) (l : List α) :
    names opening closing (s ++ l) = names opening closing l := by
  induction s with
  | nil => rfl
  | cons x s ih =>
    simp only [List.mem_cons, not_or] at h
    show readNames opening closing none (x :: (s ++ l)) = _
    rw [readNames, if_neg (Ne.symm h.1)]
    exact ih h.2

theorem readNames_append {name : List α} (h : closing ∉ name) (read l : List α) :
    readNames opening closing (some read) (name ++ closing :: l) =
      (read ++ name) :: names opening closing l := by
  induction name generalizing read with
  | nil => simp [readNames, names]
  | cons x name ih =>
    simp only [List.mem_cons, not_or] at h
    rw [List.cons_append, readNames, if_neg (Ne.symm h.1), ih h.2]
    simp

theorem names_bracketed {name : List α} (h : closing ∉ name) (l : List α) :
    names opening closing (opening :: name ++ closing :: l) =
      name :: names opening closing l := by
  rw [names, List.cons_append, readNames, if_pos rfl, readNames_append h, List.nil_append]

/-- The names of a rewritten path are those of its segments, if the rewritten segments close the
brackets they open. -/
theorem names_map {sep : α} (hsep : sep ≠ opening) {f : List α → List α}
    {g : List α → List (List α)} {l : List α}
    (hf : ∀ s ∈ l.splitOn sep, ∀ m,
      names opening closing (f s ++ m) = g s ++ names opening closing m) :
    names opening closing (map sep f l) = (l.splitOn sep).flatMap g := by
  have hskip (m : List α) : names opening closing (sep :: m) = names opening closing m := by
    rw [names, readNames, if_neg hsep, names]
  unfold map
  generalize l.splitOn sep = ss at hf ⊢
  induction ss with
  | nil => rfl
  | cons s ss ih =>
    have ih := ih fun t ht => hf t (List.mem_cons_of_mem _ ht)
    cases ss with
    | nil =>
      have h := hf s List.mem_cons_self []
      rw [List.append_nil, names_nil, List.append_nil] at h
      simpa using h
    | cons t ts =>
      rw [List.map_cons, List.map_cons, List.intercalate_cons_cons, List.append_assoc,
        hf s List.mem_cons_self, List.singleton_append, hskip, ← List.map_cons, ih,
        List.flatMap_cons, List.flatMap_cons, List.flatMap_cons]

end Names

end Nestrs.Lib.Segments
