import Nestrs.Crud.Graphql
import Nestrs.Orm.Transaction

/-!
# GraphQL mutations and the request transaction

Model of a POST to the GraphQL endpoint (`crates/nestrs-graphql/src/context.rs`) under `DbContext`
(`crates/nestrs-orm/src/interceptor.rs`), for mutation fields of any kind. A field is user code: it
writes on the ambient executor and then returns a value or an error, which may depend on what the
request has written before. A document runs its fields in order; an error of a field of a nullable
type is noted and the document goes on, any other one ends it. A batch runs its documents in order.
Whatever the fields return, the endpoint answers with 200 and the errors in the body.

`DbContext` decides by the status. So the writes of a request whose body carries a field error are
committed like those of any other one.

Results:
* `runBatch_results`, `runBatch_writes`: what a batch returns and writes, from the fields it runs;
* **`mutation_atomic_iff`**: when a request whose answer carries a field error persists nothing.
-/

namespace Nestrs.Graphql

open Nestrs.Lib Nestrs.Http Nestrs.Orm Nestrs.Crud

variable {W V : Type}

/-- A mutation field: what it writes and returns, given what the request has written so far. -/
structure MutationField (W V : Type) where
  nullable : Bool
  run : List W → List W × Except GraphqlError V

namespace MutationField

/-- The document ends with this field. -/
def ends (field : MutationField W V) (done : List W) : Bool :=
  !field.nullable && !(field.run done).2.isOk

end MutationField

/-- The fields of a document that are run, each with what was written before it. -/
def ranFields : List (MutationField W V) → List W → List (MutationField W V × List W)
  | [], _ => []
  | field :: fields, done =>
    (field, done) ::
      if field.ends done then [] else ranFields fields (done ++ (field.run done).1)

/-- A document: its fields, or why it is not executed. -/
abbrev Document (W V : Type) : Type := Except GraphqlError (List (MutationField W V))

/-- The answer to a document: the results of its fields, or why it was not executed. -/
abbrev DocumentResult (V : Type) : Type := Except GraphqlError (List (Except GraphqlError V))

/-- One document: its fields in order. -/
def runFields : List (MutationField W V) → List W → List (Except GraphqlError V) × List W
  | [], _ => ([], [])
  | field :: fields, done =>
    let (writes, result) := field.run done
    if field.ends done then ([result], writes)
    else
      let (results, writes') := runFields fields (done ++ writes)
      (result :: results, writes ++ writes')

/-- `execute_batch`: the documents in order. -/
def runBatch : List (Document W V) → List W → List (DocumentResult V) × List W
  | [], _ => ([], [])
  | .error e :: docs, done =>
    let (results, writes) := runBatch docs done
    (.error e :: results, writes)
  | .ok fields :: docs, done =>
    let (fieldResults, writes) := runFields fields done
    let (results, writes') := runBatch docs (done ++ writes)
    (.ok fieldResults :: results, writes ++ writes')

/-- The fields of a batch that are run, each with what was written before it. -/
def ranBatch : List (Document W V) → List W → List (MutationField W V × List W)
  | [], _ => []
  | .error _ :: docs, done => ranBatch docs done
  | .ok fields :: docs, done =>
    ranFields fields done ++ ranBatch docs (done ++ (runFields fields done).2)

/-- The chain `DbContext` wraps: the guards, which may write too, then `ContextEndpoint::call`. -/
def mutationHandler (guardWrites : List W) (gate : Except Refusal Unit)
    (batch : Except PoemError (List (Document W V))) (escaped : Option (List W)) :
    Handler W (List (DocumentResult V)) :=
  match gate, batch with
  | .error refusal, _ => ⟨guardWrites, .ok ⟨refusal.status, .text refusal.message⟩, escaped⟩
  | .ok (), .error e => ⟨guardWrites, .error e, escaped⟩
  | .ok (), .ok docs =>
    let (results, writes) := runBatch docs guardWrites
    ⟨guardWrites ++ writes, .ok ⟨200, .json results⟩, escaped⟩

/-- The answer carries an error for a mutation field. -/
def CarriesError (answer : Except PoemError (Response (List (DocumentResult V)))) : Prop :=
  ∃ status docs results e, answer = .ok ⟨status, .json docs⟩ ∧ .ok results ∈ docs ∧
    .error e ∈ results

/-! ## What is run -/

theorem runFields_results (fields : List (MutationField W V)) (done : List W) :
    (runFields fields done).1 = (ranFields fields done).map fun ran => (ran.1.run ran.2).2 := by
  induction fields generalizing done with
  | nil => rfl
  | cons field fields ih =>
    unfold runFields ranFields
    by_cases hends : field.ends done = true
    · simp only [hends, if_true]
      rfl
    · simp only [hends, Bool.false_eq_true, if_false, List.map_cons]
      rw [ih]

theorem runFields_writes (fields : List (MutationField W V)) (done : List W) :
    (runFields fields done).2 =
      (ranFields fields done).flatMap fun ran => (ran.1.run ran.2).1 := by
  induction fields generalizing done with
  | nil => rfl
  | cons field fields ih =>
    unfold runFields ranFields
    by_cases hends : field.ends done = true
    · simp [hends]
    · simp only [hends, Bool.false_eq_true, if_false, List.flatMap_cons]
      rw [ih]

/-- A batch carries an error iff one of the fields it runs fails. -/
theorem runBatch_results (docs : List (Document W V)) (done : List W) :
    (∃ results e, Except.ok results ∈ (runBatch docs done).1 ∧ Except.error e ∈ results) ↔
      ∃ ran ∈ ranBatch docs done, ∃ e, (ran.1.run ran.2).2 = .error e := by
  induction docs generalizing done with
  | nil => simp [runBatch, ranBatch]
  | cons doc docs ih =>
    cases doc with
    | error e =>
      have hsame : (∃ results e', Except.ok results ∈ (runBatch (.error e :: docs) done).1 ∧
          Except.error e' ∈ results) ↔
          ∃ results e', Except.ok results ∈ (runBatch docs done).1 ∧
            Except.error e' ∈ results := by
        simp [runBatch]
      exact hsame.trans (ih done)
    | ok fields =>
      have hsplit : (∃ results e, Except.ok results ∈ (runBatch (.ok fields :: docs) done).1 ∧
          Except.error e ∈ results) ↔
          (∃ e, Except.error e ∈ (runFields fields done).1) ∨
            ∃ results e, Except.ok results ∈
              (runBatch docs (done ++ (runFields fields done).2)).1 ∧ Except.error e ∈ results := by
        simp only [runBatch, List.mem_cons, Except.ok.injEq]
        constructor
        · rintro ⟨results, e, rfl | hmem, he⟩
          · exact Or.inl ⟨e, he⟩
          · exact Or.inr ⟨results, e, hmem, he⟩
        · rintro (⟨e, he⟩ | ⟨results, e, hmem, he⟩)
          · exact ⟨_, e, Or.inl rfl, he⟩
          · exact ⟨results, e, Or.inr hmem, he⟩
      rw [hsplit, ih, runFields_results]
      simp only [ranBatch, List.mem_append, List.mem_map]
      constructor
      · rintro (⟨e, ran, hran, he⟩ | ⟨ran, hran, e, he⟩)
        · exact ⟨ran, Or.inl hran, e, he⟩
        · exact ⟨ran, Or.inr hran, e, he⟩
      · rintro ⟨ran, hran | hran, e, he⟩
        · exact Or.inl ⟨e, ran, hran, he⟩
        · exact Or.inr ⟨ran, hran, e, he⟩

/-- A batch writes what the fields it runs write, in order. -/
theorem runBatch_writes (docs : List (Document W V)) (done : List W) :
    (runBatch docs done).2 = (ranBatch docs done).flatMap fun ran => (ran.1.run ran.2).1 := by
  induction docs generalizing done with
  | nil => rfl
  | cons doc docs ih =>
    cases doc with
    | error e => exact ih done
    | ok fields =>
      simp only [runBatch, ranBatch, List.flatMap_append]
      rw [ih, runFields_writes]

/-! ## What is persisted -/

section Atomic

variable {guardWrites : List W} {gate : Except Refusal Unit}
  {batch : Except PoemError (List (Document W V))} {escaped : Option (List W)}

/-- An answer with a GraphQL body is that of a batch that ran. -/
theorem mutationHandler_json {status : Nat} {body : List (DocumentResult V)}
    (h : (mutationHandler guardWrites gate batch escaped).result = .ok ⟨status, .json body⟩) :
    gate = .ok () ∧ ∃ docs, batch = .ok docs ∧ status = 200 ∧
      body = (runBatch docs guardWrites).1 := by
  unfold mutationHandler at h
  cases gate with
  | error refusal => exact nomatch h
  | ok u =>
    cases batch with
    | error e => exact nomatch h
    | ok docs =>
      cases h
      exact ⟨rfl, docs, rfl, rfl, rfl⟩

/-- The writes of a request are none iff its guards and the fields it runs write nothing. -/
theorem writes_eq_nil_iff (docs : List (Document W V)) :
    guardWrites ++ (runBatch docs guardWrites).2 = [] ↔
      guardWrites = [] ∧ ∀ ran ∈ ranBatch docs guardWrites, (ran.1.run ran.2).1 = [] := by
  rw [List.append_eq_nil_iff, runBatch_writes, List.flatMap_eq_nil_iff]

end Atomic

/-- **When a failed mutation persists nothing.** A POST whose answer carries an error for a mutation
field persists none of its writes iff its transaction is not committed for another reason, or
nothing it ran had written anything: neither its guards, nor the fields up to where each document
ended. -/
theorem mutation_atomic_iff (db : Statements) (guardWrites : List W) (gate : Except Refusal Unit)
    (batch : Except PoemError (List (Document W V))) (escaped : Option (List W)) :
    (CarriesError
          (interceptEvents db .post (mutationHandler guardWrites gate batch escaped)).1 →
        (Session.empty.replay (interceptEvents db .post
          (mutationHandler guardWrites gate batch escaped)).2).persisted = []) ↔
      (db.begins = true → db.commits = true → escaped = none → gate = .ok () →
        ∀ docs, batch = .ok docs →
          (∃ ran ∈ ranBatch docs guardWrites, ∃ e, (ran.1.run ran.2).2 = .error e) →
          guardWrites = [] ∧ ∀ ran ∈ ranBatch docs guardWrites, (ran.1.run ran.2).1 = []) := by
  constructor
  · rintro h hbegin hcommits rfl rfl docs rfl hfails
    obtain ⟨results, e, hmem, he⟩ := (runBatch_results docs guardWrites).mpr hfails
    have hanswer : (interceptEvents db .post
        (mutationHandler guardWrites (.ok ()) (.ok docs) none)).1 =
          .ok ⟨200, .json (runBatch docs guardWrites).1⟩ := by
      rw [fst_interceptEvents rfl hbegin, if_neg (by simp [mutationHandler, hcommits])]
      rfl
    have hnone := h ⟨200, _, results, e, hanswer, hmem, he⟩
    rw [replay_interceptEvents rfl hbegin, if_pos ⟨rfl, rfl, hcommits⟩] at hnone
    exact (writes_eq_nil_iff docs).mp hnone
  · rintro h ⟨status, body, results, e, hanswer, hmem, he⟩
    by_cases hbegin : db.begins = true
    · rw [replay_interceptEvents rfl hbegin]
      rw [fst_interceptEvents rfl hbegin] at hanswer
      by_cases hkept : (mutationHandler guardWrites gate batch escaped).escaped = none ∧
          shouldCommit (mutationHandler guardWrites gate batch escaped).result = true ∧
          db.commits = true
      · rw [if_pos hkept]
        obtain ⟨hescaped, hcommit, hcommits⟩ := hkept
        rw [if_neg (by simp [hescaped, hcommits])] at hanswer
        obtain ⟨rfl, docs, rfl, -, rfl⟩ := mutationHandler_json hanswer
        refine (writes_eq_nil_iff docs).mpr (h hbegin hcommits hescaped rfl docs rfl ?_)
        exact (runBatch_results docs guardWrites).mp ⟨results, e, hmem, he⟩
      · rw [if_neg hkept]
    · simp [interceptEvents, isSafe, hbegin] at hanswer

/-- A document whose first field writes a user and whose second one fails. -/
def partialDocument : Document String Unit :=
  .ok [⟨false, fun _ => (["user"], .ok ())⟩, ⟨false, fun _ => ([], .error ⟨"forbidden", none⟩)⟩]

/-- It is answered with the error, and the user is persisted. -/
theorem partialDocument_persists :
    CarriesError (interceptEvents ⟨true, true, true⟩ .post
        (mutationHandler [] (.ok ()) (.ok [partialDocument]) none)).1 ∧
      (Session.empty.replay (interceptEvents ⟨true, true, true⟩ .post
        (mutationHandler [] (.ok ()) (.ok [partialDocument]) none)).2).persisted = ["user"] := by
  refine ⟨⟨200, [.ok [.ok (), .error ⟨"forbidden", none⟩]], [.ok (), .error ⟨"forbidden", none⟩],
    ⟨"forbidden", none⟩, rfl, List.mem_singleton_self _, ?_⟩, rfl⟩
  exact List.mem_cons_of_mem _ (List.mem_singleton_self _)

end Nestrs.Graphql
