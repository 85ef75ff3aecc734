import Mathlib.Data.List.Basic

/-!
# Layers around an endpoint

An endpoint takes a request and gives a result. A layer around it answers itself, or sends a request
on and does something to what comes back. `wrap` puts a layer around an endpoint, as nested calls
do. `travel` is the loop that does the same: a way in through a list of layers, the first of them
outermost (`descend`), which ends at a layer that answers or behind the last, and a way out through
those that have sent the request on, the last of them first (`ascend`).

Results:
* **`foldr_wrap`**, `foldl_wrap`: nested layers are a way in and a way out;
* `travel_append`: two lists of layers are one after the other;
* `descend_names`, `passed_outer`: which layers a way in passes.
-/

namespace Nestrs.Lib.Onion

variable {L ρ X T : Type}

/-- What a layer does with a request. -/
inductive Met (ρ X : Type) where
  | answers (x : X)
  | passes (req : ρ) (after : X → X)

structure Layer (L ρ X : Type) where
  name : L
  meet : ρ → Met ρ X

/-- A request comes to a layer, which sends it on or not; a result leaves a layer; something happens
inside. -/
inductive Event (L T : Type) where
  | inward (name : L) (passed : Bool)
  | outward (name : L)
  | inner (t : T)
deriving DecidableEq, Repr

/-- An endpoint, with its trace. -/
abbrev Endpoint (L ρ X T : Type) : Type := ρ → List (Event L T) × X

def wrap (ep : Endpoint L ρ X T) (layer : Layer L ρ X) : Endpoint L ρ X T := fun req =>
  match layer.meet req with
  | .answers x => ([.inward layer.name false], x)
  | .passes req after =>
    let (trace, x) := ep req
    (.inward layer.name true :: trace ++ [.outward layer.name], after x)

/-! ## A way in and a way out -/

/-- Where a way in ends. -/
inductive End (L ρ X : Type) where
  | answered (name : L) (x : X)
  | arrived (req : ρ)

/-- The layers that have sent the request on, with what they are going to do, and the end. -/
def descend : List (Layer L ρ X) → ρ → List (L × (X → X)) × End L ρ X
  | [], req => ([], .arrived req)
  | layer :: layers, req =>
    match layer.meet req with
    | .answers x => ([], .answered layer.name x)
    | .passes req after =>
      let (passed, ending) := descend layers req
      ((layer.name, after) :: passed, ending)

/-- What the layers make of a result. -/
def ascend (passed : List (L × (X → X))) (x : X) : X := passed.foldr Prod.snd x

/-- What happens at the end. -/
def End.result (ep : Endpoint L ρ X T) : End L ρ X → List (Event L T) × X
  | .answered name x => ([.inward name false], x)
  | .arrived req => ep req

/-- The way in, the end, the way out. -/
def travel (layers : List (Layer L ρ X)) (ep : Endpoint L ρ X T) : Endpoint L ρ X T := fun req =>
  let (passed, ending) := descend layers req
  let (trace, x) := ending.result ep
  (passed.map (fun p => .inward p.1 true) ++ trace ++
    passed.reverse.map (fun p => .outward p.1), ascend passed x)

theorem travel_nil (ep : Endpoint L ρ X T) : travel [] ep = ep := by
  funext req
  simp [travel, descend, End.result, ascend]

theorem travel_cons (layer : Layer L ρ X) (layers : List (Layer L ρ X))
    (ep : Endpoint L ρ X T) : travel (layer :: layers) ep = wrap (travel layers ep) layer := by
  funext req
  unfold travel wrap
  rw [descend]
  cases layer.meet req with
  | answers x => rfl
  | passes req after => simp [ascend]

/-- **Nested layers are a way in and a way out.** -/
theorem foldr_wrap (layers : List (Layer L ρ X)) (ep : Endpoint L ρ X T) :
    layers.foldr (fun layer ep => wrap ep layer) ep = travel layers ep := by
  induction layers with
  | nil => exact (travel_nil ep).symm
  | cons layer layers ih => rw [List.foldr_cons, ih, travel_cons]

/-- A loop that puts layers around an endpoint leaves the last of them outermost. -/
theorem foldl_wrap {α : Type} {f : Endpoint L ρ X T → α → Endpoint L ρ X T}
    {layer : α → Layer L ρ X} (hf : ∀ ep a, f ep a = wrap ep (layer a)) (as : List α)
    (ep : Endpoint L ρ X T) :
    as.foldl f ep = travel (as.map layer).reverse ep := by
  have hwrap : f = fun ep a => wrap ep (layer a) := funext fun ep => funext (hf ep)
  rw [← foldr_wrap, List.foldr_reverse, List.foldl_map, hwrap]

theorem travel_append (outer inner : List (Layer L ρ X)) (ep : Endpoint L ρ X T) :
    travel outer (travel inner ep) = travel (outer ++ inner) ep := by
  rw [← foldr_wrap, ← foldr_wrap, ← foldr_wrap, List.foldr_append]

/-- A way in passes the first of the layers: all, if it arrives, and else those before the one that
answers. -/
theorem descend_names (layers : List (Layer L ρ X)) (req : ρ) :
    match (descend layers req).2 with
    | .arrived _ => (descend layers req).1.map Prod.fst = layers.map Layer.name
    | .answered name _ =>
      (descend layers req).1.map Prod.fst ++ [name] <+: layers.map Layer.name := by
  induction layers generalizing req with
  | nil => rfl
  | cons layer layers ih =>
    rw [descend]
    cases layer.meet req with
    | answers x => exact ⟨_, rfl⟩
    | passes req' after =>
      have hrest := ih req'
      cases hending : (descend layers req').2 with
      | arrived req'' =>
        rw [hending] at hrest
        simp only
        exact congrArg (layer.name :: ·) hrest
      | answered name x =>
        rw [hending] at hrest
        simp only
        exact List.prefix_cons_inj _ |>.mpr hrest

/-- The layer that answers is one of them, and has answered some request so. -/
theorem mem_of_answered {layers : List (Layer L ρ X)} {req : ρ} {name : L} {x : X}
    (h : (descend layers req).2 = .answered name x) :
    ∃ layer ∈ layers, ∃ req', layer.name = name ∧ layer.meet req' = .answers x := by
  induction layers generalizing req with
  | nil => cases h
  | cons layer layers ih =>
    rw [descend] at h
    cases hmeet : layer.meet req with
    | answers x' =>
      rw [hmeet] at h
      cases h
      exact ⟨layer, List.mem_cons_self, req, rfl, hmeet⟩
    | passes req' after =>
      rw [hmeet] at h
      obtain ⟨found, hfound, hanswers⟩ := ih h
      exact ⟨found, List.mem_cons_of_mem _ hfound, hanswers⟩

/-- What is answered by none of the outer layers has passed them all. -/
theorem passed_outer {outer inner : List (Layer L ρ X)} {req : ρ} {name : L} {x : X}
    (h : (descend (outer ++ inner) req).2 = .answered name x)
    (hname : name ∉ outer.map Layer.name) :
    outer.map Layer.name <+: (descend (outer ++ inner) req).1.map Prod.fst := by
  have hnames := descend_names (outer ++ inner) req
  rw [h, List.map_append] at hnames
  have houter : outer.map Layer.name <+: outer.map Layer.name ++ inner.map Layer.name := ⟨_, rfl⟩
  rcases List.prefix_or_prefix_of_prefix houter hnames with hlong | hshort
  · rcases List.prefix_concat_iff.mp hlong with heq | hpassed
    · exact absurd (heq ▸ List.mem_append_right _ List.mem_cons_self) hname
    · exact hpassed
  · exact absurd (hshort.subset (List.mem_append_right _ List.mem_cons_self)) hname

end Nestrs.Lib.Onion
