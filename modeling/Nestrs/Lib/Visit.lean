import Nestrs.Lib.Search
import Mathlib.Data.List.Basic
import Mathlib.Tactic.Tauto

/-!
# Mark-once depth-first walks

A vertex lists *items*: other vertices to enter and effects to perform on the way. Entering a
vertex that is marked does nothing; entering a fresh one marks it, walks its items, and then
*leaves* it. The walk is recorded as the list of its events, in order: the effects, and the
vertices as they are left. Marking happens before the items are walked, so cycles end.

`visit depth` computes the walk with a bound on the nesting; `Visits` is a walk as a derivation, on
which the properties are proved by induction, and what `visit` then computes (`visit_of_visits`).

Results, for a walk that starts with nothing marked:
* `exists_visits`: a nesting as deep as there are vertices suffices;
* `Visits.left_iff`: the vertices left are those the items reach, each once (`Visits.nodup`);
* `Visits.topological`: without cycles, a vertex is left after everything it reaches;
* `Visits.leaves_first`: if the items that reach `t` are always walked first, then only what `t`
  reaches is left before `t`.
-/

namespace Nestrs.Lib

variable {V E : Type}

/-- The vertices among the items of a vertex. -/
def vertices (items : List (V ⊕ E)) : List V := items.filterMap Sum.getLeft?

theorem mem_vertices {items : List (V ⊕ E)} {v : V} : v ∈ vertices items ↔ Sum.inl v ∈ items := by
  unfold vertices
  simp [List.mem_filterMap]

theorem map_inl_vertices {items : List (V ⊕ E)} (h : ∀ i ∈ items, ∃ v, i = Sum.inl v) :
    (vertices items).map Sum.inl = items := by
  induction items with
  | nil => rfl
  | cons i items ih =>
    obtain ⟨⟨v, rfl⟩, hitems⟩ := List.forall_mem_cons.mp h
    exact congrArg (Sum.inl v :: ·) (ih hitems)

section Walk

variable [DecidableEq V]

/-- The walk over a list of items, given the walk into a vertex. -/
def visitItems (enter : V → List V → Option (List V × List (V ⊕ E))) :
    List (V ⊕ E) → List V → Option (List V × List (V ⊕ E))
  | [], marked => some (marked, [])
  | .inr e :: items, marked => do
    let (marked, events) ← visitItems enter items marked
    some (marked, .inr e :: events)
  | .inl v :: items, marked =>
    if v ∈ marked then visitItems enter items marked
    else do
      let (marked, inner) ← enter v (v :: marked)
      let (marked, events) ← visitItems enter items marked
      some (marked, inner ++ .inl v :: events)

/-- The walk over a list of items from the marked vertices: what is marked after it and its
events, `none` if it nests deeper than `depth`. -/
def visit (items : V → List (V ⊕ E)) :
    Nat → List (V ⊕ E) → List V → Option (List V × List (V ⊕ E))
  | 0 => visitItems fun _ _ => none
  | depth + 1 => visitItems fun v marked => visit items depth (items v) marked

/-- `Visits items depth is marked marked' events`: the walk over `is`. -/
inductive Visits (items : V → List (V ⊕ E)) :
    Nat → List (V ⊕ E) → List V → List V → List (V ⊕ E) → Prop
  | nil {depth : Nat} {marked : List V} : Visits items depth [] marked marked []
  | effect {depth : Nat} {e : E} {is : List (V ⊕ E)} {marked marked' : List V}
      {events : List (V ⊕ E)} (rest : Visits items depth is marked marked' events) :
      Visits items depth (.inr e :: is) marked marked' (.inr e :: events)
  | skip {depth : Nat} {v : V} {is : List (V ⊕ E)} {marked marked' : List V}
      {events : List (V ⊕ E)} (hv : v ∈ marked)
      (rest : Visits items depth is marked marked' events) :
      Visits items depth (.inl v :: is) marked marked' events
  | enter {depth : Nat} {v : V} {is : List (V ⊕ E)} {marked marked₁ marked₂ : List V}
      {inner events : List (V ⊕ E)} (hv : v ∉ marked)
      (nested : Visits items depth (items v) (v :: marked) marked₁ inner)
      (rest : Visits items (depth + 1) is marked₁ marked₂ events) :
      Visits items (depth + 1) (.inl v :: is) marked marked₂ (inner ++ .inl v :: events)

variable {items : V → List (V ⊕ E)}

theorem visit_of_visits {depth : Nat} {is : List (V ⊕ E)} {marked marked' : List V}
    {events : List (V ⊕ E)} (h : Visits items depth is marked marked' events) :
    visit items depth is marked = some (marked', events) := by
  induction h with
  | nil =>
    rename_i depth marked
    cases depth <;> rfl
  | effect _ ih =>
    rename_i depth _ _ _ _ _ _
    cases depth <;> simp only [visit, visitItems] at ih ⊢ <;> rw [ih] <;> rfl
  | skip hv _ ih =>
    rename_i depth _ _ _ _ _ _
    cases depth <;> simp only [visit, visitItems, if_pos hv] at ih ⊢ <;> exact ih
  | enter hv _ _ ihn ihr =>
    simp only [visit] at ihr
    simp only [visit, visitItems, if_neg hv, ihn, ihr, Option.bind_eq_bind, Option.bind_some]

/-! ## What is marked and what is left -/

namespace Visits

variable {depth : Nat} {is : List (V ⊕ E)} {marked marked' : List V} {events : List (V ⊕ E)}

omit [DecidableEq V]

/-- What is marked after the walk was marked before it or has been left. -/
theorem mem_marked_iff (h : Visits items depth is marked marked' events) (x : V) :
    x ∈ marked' ↔ x ∈ marked ∨ Sum.inl x ∈ events := by
  induction h with
  | nil => simp
  | effect _ ih => simp [ih]
  | skip _ _ ih => exact ih
  | enter _ _ _ ihn ihr =>
    rw [ihr, ihn]
    simp only [List.mem_cons, List.mem_append, Sum.inl.injEq, or_assoc, or_left_comm]

theorem marked_subset (h : Visits items depth is marked marked' events) {x : V}
    (hx : x ∈ marked) : x ∈ marked' := (h.mem_marked_iff x).mpr (Or.inl hx)

/-- Nothing marked before the walk is left by it. -/
theorem not_mem_marked (h : Visits items depth is marked marked' events) {x : V}
    (hx : Sum.inl x ∈ events) : x ∉ marked := by
  induction h with
  | nil => exact absurd hx List.not_mem_nil
  | effect _ ih => exact ih (by simpa using hx)
  | skip _ _ ih => exact ih hx
  | enter hv hn _ ihn ihr =>
    intro hm
    rcases List.mem_append.mp hx with hx | hx
    · exact ihn hx (List.mem_cons_of_mem _ hm)
    · rcases List.mem_cons.mp hx with hx | hx
      · cases hx
        exact hv hm
      · exact ihr hx (hn.marked_subset (List.mem_cons_of_mem _ hm))

/-- Each vertex is left at most once. -/
theorem nodup (h : Visits items depth is marked marked' events) : (vertices events).Nodup := by
  induction h with
  | nil => exact List.nodup_nil
  | effect _ ih => exact ih
  | skip _ _ ih => exact ih
  | enter hv hn hr ihn ihr =>
    rename_i depth v is marked marked₁ marked₂ inner events
    have hsplit : vertices (inner ++ Sum.inl v :: events) =
        vertices inner ++ v :: vertices events := by
      simp [vertices]
    rw [hsplit, List.nodup_append, List.nodup_cons]
    refine ⟨ihn, ⟨fun hmem => ?_, ihr⟩, fun x hx y hy hxy => ?_⟩
    · exact hr.not_mem_marked (mem_vertices.mp hmem)
        (hn.marked_subset List.mem_cons_self)
    · have hx' := mem_vertices.mp hx
      rcases List.mem_cons.mp hy with rfl | hy
      · exact hn.not_mem_marked hx' (hxy ▸ List.mem_cons_self)
      · exact hr.not_mem_marked (mem_vertices.mp hy)
          ((hn.mem_marked_iff y).mpr (Or.inr (hxy ▸ hx')))

/-- Every vertex among the items is marked afterwards. -/
theorem marked_of_item (h : Visits items depth is marked marked' events) {v : V}
    (hv : Sum.inl v ∈ is) : v ∈ marked' := by
  induction h with
  | nil => exact absurd hv List.not_mem_nil
  | effect _ ih => exact ih (by simpa using hv)
  | skip hm hr ih =>
    rcases List.mem_cons.mp hv with hv | hv
    · cases hv
      exact hr.marked_subset hm
    · exact ih hv
  | enter _ hn hr _ ihr =>
    rcases List.mem_cons.mp hv with hv | hv
    · cases hv
      exact hr.marked_subset (hn.marked_subset List.mem_cons_self)
    · exact ihr hv

/-- A vertex that is left has its successors marked. -/
theorem marked_of_edge (h : Visits items depth is marked marked' events) {v u : V}
    (hv : Sum.inl v ∈ events) (hu : Sum.inl u ∈ items v) : u ∈ marked' := by
  induction h with
  | nil => exact absurd hv List.not_mem_nil
  | effect _ ih => exact ih (by simpa using hv)
  | skip _ _ ih => exact ih hv
  | enter _ hn hr ihn ihr =>
    rcases List.mem_append.mp hv with hv | hv
    · exact hr.marked_subset (ihn hv)
    · rcases List.mem_cons.mp hv with hv | hv
      · cases hv
        exact hr.marked_subset (hn.marked_of_item hu)
      · exact ihr hv

/-- A vertex that is left is reached from an item. -/
theorem reached (h : Visits items depth is marked marked' events) {x : V}
    (hx : Sum.inl x ∈ events) :
    ∃ v, Sum.inl v ∈ is ∧ Reaches (fun v => vertices (items v)) v x := by
  induction h with
  | nil => exact absurd hx List.not_mem_nil
  | effect _ ih =>
    obtain ⟨v, hv, hr⟩ := ih (by simpa using hx)
    exact ⟨v, List.mem_cons_of_mem _ hv, hr⟩
  | skip _ _ ih =>
    obtain ⟨v, hv, hr⟩ := ih hx
    exact ⟨v, List.mem_cons_of_mem _ hv, hr⟩
  | enter hv hn hr ihn ihr =>
    rename_i depth v is marked marked₁ marked₂ inner events
    rcases List.mem_append.mp hx with hx | hx
    · obtain ⟨u, hu, hr⟩ := ihn hx
      exact ⟨v, List.mem_cons_self, .head (mem_vertices.mpr hu) hr⟩
    · rcases List.mem_cons.mp hx with hx | hx
      · cases hx
        exact ⟨x, List.mem_cons_self, .refl⟩
      · obtain ⟨u, hu, hr⟩ := ihr hx
        exact ⟨u, List.mem_cons_of_mem _ hu, hr⟩

/-- The effects performed are those of the items and of the vertices left. -/
theorem effect_iff (h : Visits items depth is marked marked' events) (e : E) :
    Sum.inr e ∈ events ↔
      Sum.inr e ∈ is ∨ ∃ v, Sum.inl v ∈ events ∧ Sum.inr e ∈ items v := by
  induction h with
  | nil => simp
  | effect _ ih =>
    simp only [List.mem_cons, Sum.inr.injEq, ih, reduceCtorEq, false_or, or_assoc]
  | skip _ _ ih => simp only [ih, List.mem_cons, reduceCtorEq, false_or]
  | enter hv hn hr ihn ihr =>
    simp only [List.mem_append, List.mem_cons, ihn, ihr, reduceCtorEq, false_or, Sum.inl.injEq]
    constructor
    · rintro ((h | ⟨v, hv, h⟩) | h | ⟨v, hv, h⟩)
      · exact Or.inr ⟨_, Or.inr (Or.inl rfl), h⟩
      · exact Or.inr ⟨v, Or.inl hv, h⟩
      · exact Or.inl h
      · exact Or.inr ⟨v, Or.inr (Or.inr hv), h⟩
    · rintro (h | ⟨v, hv | rfl | hv, h⟩)
      · exact Or.inr (Or.inl h)
      · exact Or.inl (Or.inr ⟨v, hv, h⟩)
      · exact Or.inl (Or.inl h)
      · exact Or.inr (Or.inr ⟨v, hv, h⟩)

/-- **What a walk leaves**: from nothing marked, exactly what its items reach. -/
theorem left_iff (h : Visits items depth is [] marked' events) (x : V) :
    Sum.inl x ∈ events ↔ ∃ v, Sum.inl v ∈ is ∧ Reaches (fun v => vertices (items v)) v x := by
  refine ⟨h.reached, ?_⟩
  have hmarked : ∀ y, y ∈ marked' → Sum.inl y ∈ events := fun y hy =>
    ((h.mem_marked_iff y).mp hy).resolve_left List.not_mem_nil
  rintro ⟨v, hv, hr⟩
  induction hr with
  | refl => exact hmarked v (h.marked_of_item hv)
  | tail _ hyz ih => exact hmarked _ (h.marked_of_edge ih (mem_vertices.mp hyz))

end Visits

/-! ## Termination -/

theorem length_unmarked_le {S marked marked' : List V} (h : ∀ x ∈ marked, x ∈ marked') :
    (S.filter fun x => x ∉ marked').length ≤ (S.filter fun x => x ∉ marked).length := by
  refine (List.monotone_filter_right S fun x hx => ?_).length_le
  simp only [decide_eq_true_eq] at hx ⊢
  exact fun hm => hx (h x hm)

theorem length_unmarked_lt {S marked : List V} {v : V} (hS : v ∈ S) (hv : v ∉ marked) :
    (S.filter fun x => x ∉ v :: marked).length < (S.filter fun x => x ∉ marked).length := by
  have hsub : (S.filter fun x => x ∉ v :: marked).Sublist (S.filter fun x => x ∉ marked) := by
    refine List.monotone_filter_right S fun x hx => ?_
    simp only [decide_eq_true_eq] at hx ⊢
    exact fun hm => hx (List.mem_cons_of_mem v hm)
  refine lt_of_le_of_ne hsub.length_le fun hlen => ?_
  have hmem : v ∈ S.filter fun x => x ∉ marked :=
    List.mem_filter.mpr ⟨hS, by simpa using hv⟩
  rw [← hsub.eq_of_length hlen] at hmem
  simp at hmem

/-- The walk exists within a nesting as deep as there are unmarked vertices. -/
theorem exists_visits {S : List V} (hS : ∀ v ∈ S, ∀ u, Sum.inl u ∈ items v → u ∈ S)
    (depth : Nat) (is : List (V ⊕ E)) (marked : List V) (his : ∀ v, Sum.inl v ∈ is → v ∈ S)
    (hd : (S.filter fun x => x ∉ marked).length ≤ depth) :
    ∃ marked' events, Visits items depth is marked marked' events := by
  induction depth generalizing is marked with
  | zero =>
    induction is with
    | nil => exact ⟨marked, [], .nil⟩
    | cons i is ih =>
      obtain ⟨m, evs, hr⟩ := ih fun v hv => his v (List.mem_cons_of_mem i hv)
      cases i with
      | inr e => exact ⟨m, _, .effect hr⟩
      | inl v =>
        have hvm : v ∈ marked := by
          by_contra hv
          have hlt := length_unmarked_lt (his v List.mem_cons_self) hv
          omega
        exact ⟨m, _, .skip hvm hr⟩
  | succ depth ihd =>
    induction is generalizing marked with
    | nil => exact ⟨marked, [], .nil⟩
    | cons i is ih =>
      have his' : ∀ v, Sum.inl v ∈ is → v ∈ S := fun v hv => his v (List.mem_cons_of_mem i hv)
      cases i with
      | inr e =>
        obtain ⟨m, evs, hr⟩ := ih marked his' hd
        exact ⟨m, _, .effect hr⟩
      | inl v =>
        have hvS : v ∈ S := his v List.mem_cons_self
        by_cases hv : v ∈ marked
        · obtain ⟨m, evs, hr⟩ := ih marked his' hd
          exact ⟨m, _, .skip hv hr⟩
        · have hlt := length_unmarked_lt hvS hv
          obtain ⟨m₁, inner, hn⟩ := ihd (items v) (v :: marked) (hS v hvS) (by omega)
          have hle := length_unmarked_le (S := S) fun x hx => hn.marked_subset hx
          obtain ⟨m₂, evs, hr⟩ := ih m₁ his' (by omega)
          exact ⟨m₂, _, .enter hv hn hr⟩

/-! ## Order -/

/-- Every vertex of the list comes after its successors. -/
def Topological (items : V → List (V ⊕ E)) (l : List (V ⊕ E)) : Prop :=
  ∀ pre v post, l = pre ++ Sum.inl v :: post → ∀ u, Sum.inl u ∈ items v → Sum.inl u ∈ pre

omit [DecidableEq V] in
theorem Topological.concat {l : List (V ⊕ E)} (h : Topological items l) {i : V ⊕ E}
    (hi : ∀ v, i = Sum.inl v → ∀ u, Sum.inl u ∈ items v → Sum.inl u ∈ l) :
    Topological items (l ++ [i]) := by
  intro pre v post hsplit u hu
  rcases List.append_eq_append_iff.mp hsplit with ⟨mid, hpre, hmid⟩ | ⟨mid, hl, hmid⟩
  · cases mid with
    | nil =>
      simp only [List.append_nil] at hpre
      simp only [List.nil_append, List.cons.injEq] at hmid
      rw [hpre]
      exact hi v hmid.1 u hu
    | cons j mid =>
      rw [List.cons_append, List.cons.injEq] at hmid
      exact absurd hmid.2 (by simp)
  · cases mid with
    | nil =>
      simp only [List.append_nil] at hl
      simp only [List.nil_append, List.cons.injEq] at hmid
      rw [← hl]
      exact hi v hmid.1.symm u hu
    | cons j mid =>
      rw [List.cons_append, List.cons.injEq] at hmid
      rw [← hmid.1] at hl
      exact h pre v mid hl u hu

/-- No vertex reaches itself along an edge. -/
def Acyclic (items : V → List (V ⊕ E)) : Prop :=
  ∀ v, ¬ Relation.TransGen (Edge fun v => vertices (items v)) v v

namespace Visits

variable {depth : Nat} {is : List (V ⊕ E)} {marked marked' : List V} {events : List (V ⊕ E)}

omit [DecidableEq V] in
/-- The induction behind `topological`: `left` are the events so far and `entered` the vertices
entered and not left yet, all of which reach the items. -/
theorem topological_aux (hac : Acyclic items) (h : Visits items depth is marked marked' events)
    (entered : List V) (left : List (V ⊕ E))
    (hm : ∀ x ∈ marked, x ∈ entered ∨ Sum.inl x ∈ left)
    (ho : ∀ a ∈ entered, ∀ v, Sum.inl v ∈ is →
      Relation.TransGen (Edge fun v => vertices (items v)) a v)
    (ht : Topological items left) :
    Topological items (left ++ events) ∧
      ∀ x ∈ marked', x ∈ entered ∨ Sum.inl x ∈ left ++ events := by
  induction h generalizing entered left with
  | nil => exact ⟨by simpa using ht, by simpa using hm⟩
  | effect hr ih =>
    rename_i depth e is marked marked' events
    have htop := ht.concat (i := Sum.inr e) fun v hv => nomatch hv
    have hrest := ih entered (left ++ [Sum.inr e]) (fun x hx => (hm x hx).imp_right (by simp))
      (fun a ha v hv => ho a ha v (List.mem_cons_of_mem _ hv)) htop
    simpa using hrest
  | skip _ _ ih =>
    exact ih entered left hm (fun a ha v hv => ho a ha v (List.mem_cons_of_mem _ hv)) ht
  | enter hv hn hr ihn ihr =>
    rename_i depth v is marked marked₁ marked₂ inner events
    have hov : ∀ a ∈ entered, Relation.TransGen (Edge fun v => vertices (items v)) a v :=
      fun a ha => ho a ha v List.mem_cons_self
    obtain ⟨htn, hmn⟩ := ihn (v :: entered) left
      (fun x hx => by
        rcases List.mem_cons.mp hx with rfl | hx
        · exact Or.inl List.mem_cons_self
        · exact (hm x hx).imp_left (List.mem_cons_of_mem v))
      (fun a ha u hu => by
        have hvu : Edge (fun v => vertices (items v)) v u := mem_vertices.mpr hu
        rcases List.mem_cons.mp ha with rfl | ha
        · exact .single hvu
        · exact .tail (hov a ha) hvu) ht
    -- a successor still open when `v` is left would close a cycle through `v`
    have htv : Topological items ((left ++ inner) ++ [Sum.inl v]) := by
      refine htn.concat fun w hw u hu => ?_
      cases hw
      have hvu : Edge (fun v => vertices (items v)) v u := mem_vertices.mpr hu
      rcases hmn u (hn.marked_of_item hu) with hentered | hleft
      · rcases List.mem_cons.mp hentered with rfl | hentered
        · exact absurd (.single hvu) (hac u)
        · exact absurd (.tail (hov u hentered) hvu) (hac u)
      · exact hleft
    obtain ⟨htr, hmr⟩ := ihr entered ((left ++ inner) ++ [Sum.inl v])
      (fun x hx => by
        rcases hmn x hx with hentered | hleft
        · rcases List.mem_cons.mp hentered with rfl | hentered
          · exact Or.inr (by simp)
          · exact Or.inl hentered
        · exact Or.inr (List.mem_append_left _ hleft))
      (fun a ha u hu => ho a ha u (List.mem_cons_of_mem _ hu)) htv
    simp only [List.append_assoc, List.singleton_append] at htr hmr
    exact ⟨htr, hmr⟩

omit [DecidableEq V] in
/-- **Leaving in topological order.** Without cycles, what a vertex reaches is left before it. -/
theorem topological (hac : Acyclic items) (h : Visits items depth is [] marked' events)
    {pre post : List (V ⊕ E)} {v u : V} (hsplit : events = pre ++ Sum.inl v :: post)
    (hvu : Relation.TransGen (Edge fun v => vertices (items v)) v u) : Sum.inl u ∈ pre := by
  have htop : Topological items events := by
    have haux := (h.topological_aux hac [] [] (by simp) (by simp)
      (fun pre v post hn => by simp at hn)).1
    simpa using haux
  induction hvu using Relation.TransGen.head_induction_on generalizing pre post with
  | single hvw => exact htop pre _ post hsplit u (mem_vertices.mp hvw)
  | head hvw _ ih =>
    obtain ⟨pre', post', hpre⟩ :=
      List.append_of_mem (htop pre _ post hsplit _ (mem_vertices.mp hvw))
    have hsplit' := hsplit
    rw [hpre, List.append_assoc, List.cons_append] at hsplit'
    rw [hpre]
    exact List.mem_append_left _ (ih hsplit')

/-- The items that reach `t`, if any, start the list. -/
def FirstTo (items : V → List (V ⊕ E)) (t : V) (is : List (V ⊕ E)) : Prop :=
  (∃ v, Sum.inl v ∈ is ∧ Reaches (fun v => vertices (items v)) v t) →
    ∃ v rest, is = Sum.inl v :: rest ∧ Reaches (fun v => vertices (items v)) v t

/-- **Walking towards `t` first.** Without cycles, when every list walks its items that reach `t`
first, only what `t` reaches is left before `t`. -/
theorem leaves_first (hac : Acyclic items) {t : V} (hfirst : ∀ v, FirstTo items t (items v))
    (h : Visits items depth is marked marked' events) (entered : List V) (his : FirstTo items t is)
    (hex : ∃ v, Sum.inl v ∈ is ∧ Reaches (fun v => vertices (items v)) v t) (ht : t ∉ marked)
    (hm : ∀ x ∈ marked, Reaches (fun v => vertices (items v)) x t → x ∈ entered)
    (ho : ∀ a ∈ entered, ∀ v, Sum.inl v ∈ is →
      Relation.TransGen (Edge fun v => vertices (items v)) a v) :
    ∃ pre post, events = pre ++ Sum.inl t :: post ∧
      ∀ x, Sum.inl x ∈ pre → Reaches (fun v => vertices (items v)) t x := by
  induction h generalizing entered with
  | nil =>
    obtain ⟨v, hv, -⟩ := hex
    exact absurd hv List.not_mem_nil
  | effect _ _ =>
    obtain ⟨v, rest, hcons, -⟩ := his hex
    exact nomatch hcons
  | skip hv hr ih =>
    rename_i depth v is marked marked' events
    obtain ⟨x, rest, hcons, hxt⟩ := his hex
    cases hcons
    exact absurd (ho v (hm v hv hxt) v List.mem_cons_self) (hac v)
  | enter hv hn hr ihn ihr =>
    rename_i depth v is marked marked₁ marked₂ inner events
    obtain ⟨x, rest, hcons, hxt⟩ := his hex
    cases hcons
    by_cases hvt : v = t
    · -- the nested walk leaves only what `t` reaches
      subst hvt
      refine ⟨inner, events, rfl, fun x hx => ?_⟩
      obtain ⟨u, hu, hux⟩ := hn.reached hx
      exact .head (mem_vertices.mpr hu) hux
    · rcases Relation.ReflTransGen.cases_head hxt with heq | ⟨w, hvw, hwt⟩
      · exact absurd heq hvt
      obtain ⟨pre, post, hinner, hpre⟩ := ihn (v :: entered) (hfirst v)
        ⟨w, mem_vertices.mp hvw, hwt⟩
        (fun hmem => (List.mem_cons.mp hmem).elim (fun h => hvt h.symm) ht)
        (fun y hy hyt => by
          rcases List.mem_cons.mp hy with rfl | hy
          · exact List.mem_cons_self
          · exact List.mem_cons_of_mem v (hm y hy hyt))
        (fun a ha u hu => by
          have hvu : Edge (fun v => vertices (items v)) v u := mem_vertices.mpr hu
          rcases List.mem_cons.mp ha with rfl | ha
          · exact .single hvu
          · exact .tail (ho a ha v List.mem_cons_self) hvu)
      refine ⟨pre, post ++ Sum.inl v :: events, ?_, hpre⟩
      rw [hinner, List.append_assoc, List.cons_append]

end Visits

end Walk

end Nestrs.Lib
