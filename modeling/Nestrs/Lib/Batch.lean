import Mathlib.Data.List.Basic
import Mathlib.Logic.Function.Basic

/-!
# Loading in batches

A batch function is given many keys at once and answers with a map. Which keys end up in one batch
is a matter of timing; what a caller gets for its key should not be.

* `buckets`: the values of each key, collected from rows in one pass over all of them;
* `collect`: a map made of entries, the last of a key over the ones before it;
* `Transparent`: the answer for a key does not depend on the batch that the key is in.

Results:
* `buckets_eq`, `collect_eq`: the answers, key by key;
* `transparent_of_forall`: a batch function that is given key by key is transparent;
* `serve_eq`: under a transparent batch function it makes no difference how keys are batched.
-/

namespace Nestrs.Lib

variable {K V R : Type}

/-- A batch function. -/
abbrev BatchFn (K V : Type) : Type := List K → K → Option V

/-- The answer for a key is what the key alone would have got. -/
def Transparent (load : BatchFn K V) : Prop := ∀ keys, ∀ k ∈ keys, load keys k = load [k] k

theorem transparent_of_forall {load : BatchFn K V} {answer : K → Option V}
    (h : ∀ keys, ∀ k ∈ keys, load keys k = answer k) : Transparent load := by
  intro keys k hk
  rw [h keys k hk, h [k] k (List.mem_singleton_self k)]

/-- What the callers get when their keys go into these batches. -/
def serve (load : BatchFn K V) (batches : List (List K)) : List (K × Option V) :=
  batches.flatMap fun keys => keys.map fun k => (k, load keys k)

/-- However the keys are batched, each gets what it would have got alone. -/
theorem serve_eq {load : BatchFn K V} (h : Transparent load) (batches : List (List K)) :
    serve load batches = batches.flatten.map fun k => (k, load [k] k) := by
  induction batches with
  | nil => rfl
  | cons keys batches ih =>
    have hfirst : (keys.map fun k => (k, load keys k)) = keys.map fun k => (k, load [k] k) :=
      List.map_congr_left fun k hk => by rw [h keys k hk]
    rw [serve, List.flatMap_cons, hfirst, List.flatten_cons, List.map_append, ← ih]
    rfl

variable [DecidableEq K]

/-! ## Buckets -/

/-- An empty bucket for each key. -/
def empties (keys : List K) : K → Option (List V) := fun k => if k ∈ keys then some [] else none

/-- A value goes into the bucket of its key, if there is one. -/
def push (buckets : K → Option (List V)) (k : K) (v : V) : K → Option (List V) :=
  Function.update buckets k ((buckets k).map (· ++ [v]))

/-- The rows, each in the bucket of its key. -/
def buckets (keyOf : R → K) (valueOf : R → V) (rows : List R) (keys : List K) :
    K → Option (List V) :=
  rows.foldl (fun acc r => push acc (keyOf r) (valueOf r)) (empties keys)

theorem push_apply (acc : K → Option (List V)) (k k' : K) (v : V) :
    push acc k v k' = (acc k').map fun bucket => if k = k' then bucket ++ [v] else bucket := by
  unfold push
  by_cases h : k = k'
  · subst h
    simp
  · simp [Function.update_of_ne (Ne.symm h), h]

/-- A pass over the rows appends to each bucket the values of its key. -/
theorem foldl_push (keyOf : R → K) (valueOf : R → V) (rows : List R) (acc : K → Option (List V))
    (k : K) :
    rows.foldl (fun acc r => push acc (keyOf r) (valueOf r)) acc k =
      (acc k).map (· ++ (rows.filter fun r => keyOf r = k).map valueOf) := by
  induction rows generalizing acc with
  | nil => simp
  | cons r rows ih =>
    rw [List.foldl_cons, ih, push_apply, Option.map_map]
    by_cases h : keyOf r = k
    · simp [h, Function.comp_def]
    · simp [h, Function.comp_def]

theorem buckets_eq (keyOf : R → K) (valueOf : R → V) (rows : List R) (keys : List K) (k : K) :
    buckets keyOf valueOf rows keys k =
      if k ∈ keys then some ((rows.filter fun r => keyOf r = k).map valueOf) else none := by
  rw [buckets, foldl_push, empties]
  split <;> simp

/-! ## Entries -/

/-- An entry, over what was there under its key. -/
def put (acc : K → Option V) (entry : K × V) : K → Option V :=
  Function.update acc entry.1 (some entry.2)

/-- The map of these entries. -/
def collect (entries : List (K × V)) : K → Option V := entries.foldl put fun _ => none

theorem foldl_put (entries : List (K × V)) (acc : K → Option V) (k : K) :
    entries.foldl put acc k =
      ((entries.filter fun entry => entry.1 = k).getLast?.map Prod.snd).or (acc k) := by
  induction entries generalizing acc with
  | nil => rfl
  | cons entry entries ih =>
    rw [List.foldl_cons, ih]
    by_cases h : entry.1 = k
    · subst h
      rw [put, Function.update_self, List.filter_cons_of_pos (by simp), List.getLast?_cons]
      cases (entries.filter fun e => e.1 = entry.1).getLast? <;> rfl
    · rw [put, Function.update_of_ne (Ne.symm h), List.filter_cons_of_neg (by simp [h])]

theorem collect_eq (entries : List (K × V)) (k : K) :
    collect entries k = (entries.filter fun entry => entry.1 = k).getLast?.map Prod.snd := by
  rw [collect, foldl_put, Option.or_none]

end Nestrs.Lib
