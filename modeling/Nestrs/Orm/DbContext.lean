import Nestrs.Http.Pipeline

/-!
# The request transaction

Model of `crates/nestrs-orm/src/interceptor.rs`. `DbContext` wraps every request: a safe method
runs on the pool, any other one in a transaction, which is committed when the handler answers with
a 2xx or 3xx and rolled back otherwise. `begin` and `commit` may fail, and a service may leak the
executor into a task that outlives the handler, after which the transaction cannot be taken back.

The handler is a function on the stored state: what it answers and what it has written. What a
rolled back or dropped transaction has written is lost.

Results:
* **`intercept_cases`**: a request leaves the state it found, unless it is answered with a 2xx or
  3xx, or had a safe method.
-/

namespace Nestrs.Orm

open Nestrs.Http

/-- `is_safe`. -/
def isSafe : Method → Bool
  | .get | .head | .options | .trace => true
  | _ => false

/-- `should_commit`. -/
def shouldCommit {β : Type} : Except PoemError (Response β) → Bool
  | .ok resp => isSuccess resp.status || isRedirection resp.status
  | .error _ => false

/-- How the transaction of a request goes. -/
structure Txn where
  begins : Bool
  /-- A clone of the executor outlives the handler. -/
  escapes : Bool
  commits : Bool

/-- A transaction that goes through. -/
def Txn.succeeding : Txn := ⟨true, false, true⟩

/-- `DbContext::intercept`. -/
def intercept {S β : Type} (txn : Txn) (method : Method)
    (handler : S → Except PoemError (Response β) × S) (s : S) :
    Except PoemError (Response β) × S :=
  if isSafe method then handler s
  else if !txn.begins then (.error ⟨500, ""⟩, s)
  else
    let (result, written) := handler s
    if txn.escapes then
      if shouldCommit result then (.error ⟨500, ""⟩, s) else (result, s)
    else if shouldCommit result then
      if txn.commits then (result, written) else (.error ⟨500, ""⟩, s)
    else (result, s)

/-- **What a request leaves**: what its handler did stands if the method is safe or the answer is a
2xx or 3xx; otherwise the request is not answered so, and the state is the one it found. -/
theorem intercept_cases {S β : Type} (txn : Txn) (method : Method)
    (handler : S → Except PoemError (Response β) × S) (s : S) :
    (intercept txn method handler s = handler s ∧
        (isSafe method = true ∨ shouldCommit (handler s).1 = true)) ∨
      (shouldCommit (intercept txn method handler s).1 = false ∧
        (intercept txn method handler s).2 = s) := by
  unfold intercept
  cases hsafe : isSafe method with
  | true => exact Or.inl ⟨rfl, Or.inl rfl⟩
  | false =>
    simp only [Bool.false_eq_true, if_false]
    cases txn.begins with
    | false => exact Or.inr ⟨rfl, rfl⟩
    | true =>
      simp only [Bool.not_true, Bool.false_eq_true, if_false]
      cases txn.escapes with
      | true =>
        cases hc : shouldCommit (handler s).1 with
        | true => exact Or.inr ⟨rfl, rfl⟩
        | false => exact Or.inr ⟨hc, rfl⟩
      | false =>
        cases hc : shouldCommit (handler s).1 with
        | false => exact Or.inr ⟨hc, rfl⟩
        | true =>
          cases txn.commits with
          | false => exact Or.inr ⟨rfl, rfl⟩
          | true => exact Or.inl ⟨rfl, Or.inr rfl⟩

/-- A request that is answered with a 2xx or 3xx went as its handler did. -/
theorem intercept_of_commit {S β : Type} {txn : Txn} {method : Method}
    {handler : S → Except PoemError (Response β) × S} {s : S}
    (h : shouldCommit (intercept txn method handler s).1 = true) :
    intercept txn method handler s = handler s := by
  rcases intercept_cases txn method handler s with ⟨heq, -⟩ | ⟨hno, -⟩
  · exact heq
  · rw [hno] at h
    exact absurd h Bool.false_ne_true

/-- A transaction that goes through commits what the handler has answered with a 2xx or 3xx. -/
theorem intercept_succeeding {S β : Type} {method : Method}
    {handler : S → Except PoemError (Response β) × S} {s : S}
    (h : shouldCommit (handler s).1 = true) :
    intercept .succeeding method handler s = handler s := by
  unfold intercept
  cases isSafe method with
  | true => rfl
  | false => simp [Txn.succeeding, h]

/-- A response is the handler's own. -/
theorem intercept_fst_ok {S β : Type} {txn : Txn} {method : Method}
    {handler : S → Except PoemError (Response β) × S} {s : S} {resp : Response β}
    (h : (intercept txn method handler s).1 = .ok resp) : (handler s).1 = .ok resp := by
  unfold intercept at h
  simp only at h
  -- the other branches answer with an error of their own
  split_ifs at h
  · exact h
  · exact h
  · exact h
  · exact h

/-- A handler that writes nothing leaves the state as it was. -/
theorem intercept_of_unchanged {S β : Type} {txn : Txn} {method : Method}
    {handler : S → Except PoemError (Response β) × S} {s : S} (h : (handler s).2 = s) :
    (intercept txn method handler s).2 = s := by
  rcases intercept_cases txn method handler s with ⟨heq, -⟩ | ⟨-, hs⟩
  · rw [heq]
    exact h
  · exact hs

end Nestrs.Orm
