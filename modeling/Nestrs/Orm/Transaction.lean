import Nestrs.Orm.DbContext

/-!
# The statements of a request transaction

`DbContext::intercept` (`crates/nestrs-orm/src/interceptor.rs`) again, one level below
`DbContext.lean`: as the sequence of what it sends to the database. The handler performs writes on
the ambient executor (`executor.rs`) and answers; it may leak a clone of the executor into a task
that writes on and drops it later; `begin`, `commit` and `rollback` may each fail. A `Session`
replays the sequence: an open transaction buffers its writes, a commit that succeeds persists them,
and a transaction that is rolled back, dropped, or whose commit fails persists nothing.

Results:
* **`request_boundary`**: a mutating request is answered with a 2xx or 3xx iff its transaction was
  committed, once and with every write of the handler; otherwise nothing is persisted;
* `intercept_eq_replay`: `DbContext.lean` is what the sequence comes to on the stored state.
-/

namespace Nestrs.Orm

open Nestrs.Http

variable {W β : Type}

/-- What the request sends to the database, and how it went. -/
inductive DbEvent (W : Type) where
  | begin (ok : Bool)
  | write (w : W)
  | commit (ok : Bool)
  | rollback (ok : Bool)
  /-- The last owner of a transaction goes away. -/
  | drop
deriving Repr

/-- Which of the statements of the interceptor succeed. -/
structure Statements where
  begins : Bool
  commits : Bool
  rollsBack : Bool

/-- What the rest of the chain does: its writes and its answer, and, if a clone of the executor
escapes, what the task that holds it writes after that. -/
structure Handler (W β : Type) where
  writes : List W
  result : Except PoemError (Response β)
  escaped : Option (List W)

/-- `DbContext::intercept`: the answer, and what the database was sent. -/
def interceptEvents (db : Statements) (method : Method) (handler : Handler W β) :
    Except PoemError (Response β) × List (DbEvent W) :=
  if isSafe method then (handler.result, handler.writes.map .write)
  else if !db.begins then (.error ⟨500, ""⟩, [.begin false])
  else
    let sent := .begin true :: handler.writes.map .write
    match handler.escaped with
    | some late =>
      -- `Arc::try_unwrap` fails; the clone that is left goes with the leaked task
      let sent := sent ++ late.map .write ++ [.drop]
      if shouldCommit handler.result then (.error ⟨500, ""⟩, sent) else (handler.result, sent)
    | none =>
      if shouldCommit handler.result then
        if db.commits then (handler.result, sent ++ [.commit true])
        else (.error ⟨500, ""⟩, sent ++ [.commit false])
      else (handler.result, sent ++ [.rollback db.rollsBack])

/-! ## The database side -/

/-- The writes persisted, how often a transaction was committed, and the writes of the one that is
open. -/
structure Session (W : Type) where
  persisted : List W
  commits : Nat
  txn : Option (List W)

namespace Session

/-- Nothing sent yet. -/
def empty : Session W := ⟨[], 0, none⟩

/-- One statement. -/
def step (s : Session W) : DbEvent W → Session W
  | .begin ok => if ok then { s with txn := some [] } else s
  | .write w =>
    match s.txn with
    | some pending => { s with txn := some (pending ++ [w]) }
    | none => { s with persisted := s.persisted ++ [w] }
  | .commit ok =>
    if ok then ⟨s.persisted ++ s.txn.getD [], s.commits + 1, none⟩ else { s with txn := none }
  | .rollback _ => { s with txn := none }
  | .drop => { s with txn := none }

/-- A sequence of statements. -/
def replay (s : Session W) (events : List (DbEvent W)) : Session W := events.foldl step s

theorem replay_append (s : Session W) (events events' : List (DbEvent W)) :
    s.replay (events ++ events') = (s.replay events).replay events' :=
  List.foldl_append

/-- Writes in a transaction stay in it. -/
theorem replay_writes_of_txn (writes : List W) {s : Session W} {pending : List W}
    (h : s.txn = some pending) :
    s.replay (writes.map .write) = { s with txn := some (pending ++ writes) } := by
  induction writes generalizing s pending with
  | nil =>
    rw [List.append_nil, ← h]
    rfl
  | cons w writes ih =>
    have hstep : s.step (.write w) = { s with txn := some (pending ++ [w]) } := by
      unfold step
      rw [h]
    show (s.step (.write w)).replay (writes.map .write) = _
    rw [hstep, ih rfl, List.append_assoc]
    rfl

/-- Writes on the pool are persisted at once. -/
theorem replay_writes_of_pool (writes : List W) {s : Session W} (h : s.txn = none) :
    s.replay (writes.map .write) = { s with persisted := s.persisted ++ writes } := by
  induction writes generalizing s with
  | nil =>
    rw [List.append_nil]
    rfl
  | cons w writes ih =>
    have hstep : s.step (.write w) = { s with persisted := s.persisted ++ [w] } := by
      unfold step
      rw [h]
    have hrest := ih (s := { s with persisted := s.persisted ++ [w] }) h
    show (s.step (.write w)).replay (writes.map .write) = _
    rw [hstep, hrest, List.append_assoc]
    rfl

/-- The session a handler that has written in its transaction leaves. -/
theorem replay_begun (writes : List W) :
    (empty (W := W)).replay (.begin true :: writes.map .write) = ⟨[], 0, some writes⟩ :=
  replay_writes_of_txn (s := ⟨[], 0, some []⟩) writes rfl

end Session

/-! ## The boundary -/

section Boundary

variable {db : Statements} {method : Method} {handler : Handler W β}

/-- The session a request leaves, when it ran its handler in a transaction. -/
theorem replay_interceptEvents (hmethod : isSafe method = false) (hbegin : db.begins = true) :
    Session.empty.replay (interceptEvents db method handler).2 =
      if handler.escaped = none ∧ shouldCommit handler.result = true ∧ db.commits = true
        then ⟨handler.writes, 1, none⟩ else ⟨[], 0, none⟩ := by
  unfold interceptEvents
  rw [hmethod, hbegin]
  simp only [Bool.false_eq_true, if_false, Bool.not_true]
  cases handler.escaped with
  | some late =>
    have hsent : Session.empty.replay
        (.begin true :: handler.writes.map .write ++ late.map .write ++ [.drop]) =
          ⟨[], 0, none⟩ := by
      rw [Session.replay_append, Session.replay_append, Session.replay_begun,
        Session.replay_writes_of_txn late rfl]
      rfl
    cases shouldCommit handler.result with
    | false =>
      simp only [Bool.false_eq_true, if_false, reduceCtorEq, false_and]
      exact hsent
    | true =>
      simp only [if_true, reduceCtorEq, if_false, false_and]
      exact hsent
  | none =>
    cases hcommit : shouldCommit handler.result with
    | false =>
      simp only [Bool.false_eq_true, if_false, false_and, and_false]
      rw [Session.replay_append, Session.replay_begun]
      rfl
    | true =>
      simp only [if_true, true_and]
      cases db.commits with
      | false =>
        simp only [Bool.false_eq_true, if_false]
        rw [Session.replay_append, Session.replay_begun]
        rfl
      | true =>
        simp only [if_true]
        rw [Session.replay_append, Session.replay_begun]
        rfl

/-- What a mutating request is answered with. -/
theorem fst_interceptEvents (hmethod : isSafe method = false) (hbegin : db.begins = true) :
    (interceptEvents db method handler).1 =
      if shouldCommit handler.result = true ∧ (handler.escaped ≠ none ∨ db.commits = false)
        then .error ⟨500, ""⟩ else handler.result := by
  unfold interceptEvents
  rw [hmethod, hbegin]
  simp only [Bool.false_eq_true, if_false, Bool.not_true]
  cases handler.escaped with
  | some late =>
    cases shouldCommit handler.result with
    | false => simp
    | true => simp
  | none =>
    cases shouldCommit handler.result with
    | false => simp
    | true => cases db.commits <;> simp

/-- **The request transaction boundary.** For every mutating request, whatever its handler writes
and answers, whether or not a clone of the executor escapes, and whichever of `begin`, `commit` and
`rollback` fails: if the answer is a 2xx or 3xx, the transaction was committed exactly once, with
all the writes of the handler; otherwise none of them is persisted. A handler that has itself
answered otherwise is answered with as it is. -/
theorem request_boundary (db : Statements) {method : Method} (hmethod : isSafe method = false)
    (handler : Handler W β) :
    (shouldCommit (interceptEvents db method handler).1 = true →
        Session.empty.replay (interceptEvents db method handler).2 =
          ⟨handler.writes, 1, none⟩) ∧
      (shouldCommit (interceptEvents db method handler).1 = false →
        Session.empty.replay (interceptEvents db method handler).2 = ⟨[], 0, none⟩) ∧
      (db.begins = true → shouldCommit handler.result = false →
        (interceptEvents db method handler).1 = handler.result) := by
  by_cases hbegin : db.begins = true
  · rw [replay_interceptEvents hmethod hbegin, fst_interceptEvents hmethod hbegin]
    by_cases hcommit : shouldCommit handler.result = true
    · by_cases hkept : handler.escaped = none ∧ db.commits = true
      · rw [if_neg (by simp [hkept.1, hkept.2]), if_pos ⟨hkept.1, hcommit, hkept.2⟩]
        refine ⟨fun _ => rfl, fun hno => ?_, fun _ _ => rfl⟩
        rw [hcommit] at hno
        exact absurd hno.symm Bool.false_ne_true
      · have hlost : handler.escaped ≠ none ∨ db.commits = false := by
          by_cases hescaped : handler.escaped = none
          · exact Or.inr (by simpa using fun h => hkept ⟨hescaped, h⟩)
          · exact Or.inl hescaped
        rw [if_pos ⟨hcommit, hlost⟩, if_neg fun h => hkept ⟨h.1, h.2.2⟩]
        refine ⟨nofun, fun _ => rfl, fun _ hno => ?_⟩
        rw [hcommit] at hno
        exact absurd hno.symm Bool.false_ne_true
    · rw [if_neg fun h => hcommit h.1, if_neg fun h => hcommit h.2.1]
      exact ⟨fun hyes => absurd hyes hcommit, fun _ => rfl, fun _ _ => rfl⟩
  · have hevents : interceptEvents db method handler = (.error ⟨500, ""⟩, [.begin false]) := by
      unfold interceptEvents
      rw [hmethod]
      simp [hbegin]
    rw [hevents]
    exact ⟨nofun, fun _ => rfl, fun h _ => absurd h hbegin⟩

/-- A POST whose handler writes a row and answers with 201, and whose commit fails. -/
theorem failed_commit_boundary :
    Session.empty.replay (interceptEvents ⟨true, false, true⟩ .post
      (⟨["row"], .ok ⟨201, .empty⟩, none⟩ : Handler String Unit)).2 = ⟨[], 0, none⟩ :=
  (request_boundary ⟨true, false, true⟩ rfl
    (⟨["row"], .ok ⟨201, .empty⟩, none⟩ : Handler String Unit)).2.1 rfl

end Boundary

/-! ## The stored state -/

/-- **`intercept` is the sequence of statements**, played on the stored state. -/
theorem intercept_eq_replay {S : Type} (apply : S → W → S) (db : Statements) (method : Method)
    (handler : S → Handler W β) (s : S) :
    intercept ⟨db.begins, (handler s).escaped.isSome, db.commits⟩ method
        (fun s => ((handler s).result, (handler s).writes.foldl apply s)) s =
      ((interceptEvents db method (handler s)).1,
        (Session.empty.replay (interceptEvents db method (handler s)).2).persisted.foldl
          apply s) := by
  cases hsafe : isSafe method with
  | true =>
    unfold intercept interceptEvents
    rw [if_pos hsafe, if_pos hsafe, Session.replay_writes_of_pool _ rfl]
    rfl
  | false =>
    by_cases hbegin : db.begins = true
    · rw [replay_interceptEvents hsafe hbegin, fst_interceptEvents hsafe hbegin]
      unfold intercept
      rw [hsafe, hbegin]
      cases (handler s).escaped with
      | some late => cases hcommit : shouldCommit (handler s).result <;> simp [hcommit]
      | none =>
        cases hcommit : shouldCommit (handler s).result with
        | false => simp [hcommit]
        | true => cases hcommits : db.commits <;> simp [hcommit]
    · unfold intercept interceptEvents
      rw [hsafe]
      simp [hbegin, Session.replay, Session.step, Session.empty]

end Nestrs.Orm
