import Mathlib.Algebra.GroupWithZero.Nat
import Mathlib.Data.List.Basic

/-!
# The access log of a response

Model of `AccessLogBody` and `AccessLog::emit` (`crates/nestrs-telemetry/src/interceptor.rs`).
`OtelHttp` wraps the body stream of every response; the wrapper counts the bytes that pass and logs
the request when the stream ends, or when it is dropped. `log` is an `Option` that `emit_once`
takes, so that whichever comes first logs and everything later finds nothing.

Each `poll_next` of the wrapper asks the inner stream once, so a life of the wrapper is the list of
the answers it was given, each at an instant, and the instant it is dropped. The inner stream may
answer anything, also after an error or after its end. The byte count is a `u64`, as in a release
build: it is the number of bytes until that reaches `2^64`.

Results:
* `run_spec`: what the wrapper has done after any polls, by the answers;
* **`logged_exactly_once`**.
-/

namespace Nestrs.Telemetry

/-- Nanoseconds of the monotonic clock. -/
abbrev Instant := Nat

/-- `Bytes`. -/
abbrev Bytes := List UInt8

/-- `AccessLog`; a span is named by its id. -/
structure AccessLog where
  method : String
  path : String
  status : UInt16
  clientIp : String
  userAgent : String
  traceId : String
  start : Instant
  span : Nat
  accessLog : Bool
deriving DecidableEq, Repr

/-- The event of target `nestrs::access`; `duration` is what `duration_ms` renders. -/
structure AccessEvent where
  method : String
  path : String
  status : UInt16
  bytes : UInt64
  duration : Nat
  clientIp : String
  userAgent : String
  traceId : String
deriving DecidableEq, Repr

/-- What the wrapper does to the outside: `http.response.body.size` on the span, and the event. -/
inductive Effect where
  | recordSize (span : Nat) (bytes : UInt64)
  | access (event : AccessEvent)
deriving DecidableEq, Repr

/-- `AccessLog::emit`. -/
def AccessLog.emit (log : AccessLog) (bytes : UInt64) (now : Instant) : List Effect :=
  .recordSize log.span bytes ::
    if log.accessLog then
      [.access { method := log.method, path := log.path, status := log.status, bytes
                 duration := now - log.start, clientIp := log.clientIp
                 userAgent := log.userAgent, traceId := log.traceId }]
    else []

/-- `Poll<Option<Result<Bytes, IoError>>>`; `ε` is `IoError`. -/
inductive Answer (ε : Type) where
  | ready (item : Option (Except ε Bytes))
  | pending

/-- `AccessLogBody`, without the stream it asks. -/
structure AccessLogBody where
  counted : UInt64
  log : Option AccessLog

namespace AccessLogBody

variable {ε : Type}

/-- As `OtelHttp` makes it. -/
def new (log : AccessLog) : AccessLogBody := ⟨0, some log⟩

/-- `emit_once`. -/
def emitOnce (body : AccessLogBody) (now : Instant) : AccessLogBody × List Effect :=
  match body.log with
  | some log => ({ body with log := none }, log.emit body.counted now)
  | none => (body, [])

/-- `poll_next`, by what the inner stream answers: what is passed on, the wrapper after it and the
effects. -/
def pollNext (body : AccessLogBody) (now : Instant) :
    Answer ε → Answer ε × AccessLogBody × List Effect
  | .ready (some (.ok chunk)) =>
    (.ready (some (.ok chunk)), { body with counted := body.counted + .ofNat chunk.length }, [])
  | .ready terminal => (.ready terminal, body.emitOnce now)
  | .pending => (.pending, body, [])

/-- The polls of a stream, one after the other. -/
def run (body : AccessLogBody) :
    List (Instant × Answer ε) → List (Answer ε) × AccessLogBody × List Effect
  | [] => ([], body, [])
  | (now, answer) :: polls =>
    let (passed, body, effects) := body.pollNext now answer
    let (passedLater, body, effectsLater) := body.run polls
    (passed :: passedLater, body, effects ++ effectsLater)

/-- The polls, and then `drop`. -/
def life (body : AccessLogBody) (polls : List (Instant × Answer ε)) (dropped : Instant) :
    List (Answer ε) × List Effect :=
  let (passed, body, effects) := body.run polls
  (passed, effects ++ (body.emitOnce dropped).2)

end AccessLogBody

/-! ## What is to be logged -/

section Spec

variable {ε : Type}

/-- An error or the end of the stream. -/
def Answer.terminal : Answer ε → Bool
  | .ready (some (.ok _)) | .pending => false
  | .ready (some (.error _)) | .ready none => true

/-- The bytes of the answer. -/
def Answer.length : Answer ε → Nat
  | .ready (some (.ok chunk)) => chunk.length
  | _ => 0

/-- The bytes of the chunks before the first error or end. -/
def bytesSent (polls : List (Instant × Answer ε)) : Nat :=
  ((polls.takeWhile fun poll => !poll.2.terminal).map fun poll => poll.2.length).sum

/-- The instant of the first error or end, if there is one. -/
def endedAt (polls : List (Instant × Answer ε)) : Option Instant :=
  (polls.find? fun poll => poll.2.terminal).map Prod.fst

def Effect.isAccess : Effect → Bool
  | .access _ => true
  | .recordSize _ _ => false

end Spec

/-! ## The wrapper -/

section Wrapper

variable {ε : Type}

theorem emitOnce_of_none (counted : UInt64) (now : Instant) :
    (⟨counted, none⟩ : AccessLogBody).emitOnce now = (⟨counted, none⟩, []) := rfl

/-- One poll, by its answer: items pass unchanged; a chunk is counted, and only an error or the end
logs. -/
theorem pollNext_spec (body : AccessLogBody) (now : Instant) (answer : Answer ε) :
    (body.pollNext now answer).1 = answer ∧
      (answer.terminal = false → (body.pollNext now answer).2 =
        ({ body with counted := body.counted + .ofNat answer.length }, [])) ∧
      (answer.terminal = true → (body.pollNext now answer).2 = body.emitOnce now) := by
  rcases answer with (_ | e | chunk) | _
  · exact ⟨rfl, nofun, fun _ => rfl⟩
  · exact ⟨rfl, nofun, fun _ => rfl⟩
  · exact ⟨rfl, fun _ => rfl, nofun⟩
  · refine ⟨rfl, fun _ => ?_, nofun⟩
    have hzero : body.counted + .ofNat (Answer.pending : Answer ε).length = body.counted :=
      UInt64.add_zero body.counted
    rw [hzero]
    rfl

/-- Items pass unchanged, whatever the wrapper has logged. -/
theorem passed_run (polls : List (Instant × Answer ε)) (body : AccessLogBody) :
    (body.run polls).1 = polls.map Prod.snd := by
  induction polls generalizing body with
  | nil => rfl
  | cons poll polls ih =>
    obtain ⟨now, answer⟩ := poll
    obtain ⟨hpassed, -, -⟩ := pollNext_spec body now answer
    simp only [AccessLogBody.run, List.map_cons, hpassed, ih]

/-- Once it has logged, the wrapper logs no more. -/
theorem run_of_logged (polls : List (Instant × Answer ε)) (counted : UInt64) :
    ((⟨counted, none⟩ : AccessLogBody).run polls).2.1.log = none ∧
      ((⟨counted, none⟩ : AccessLogBody).run polls).2.2 = [] := by
  induction polls generalizing counted with
  | nil => exact ⟨rfl, rfl⟩
  | cons poll polls ih =>
    obtain ⟨now, answer⟩ := poll
    obtain ⟨-, hflows, hends⟩ := pollNext_spec ⟨counted, none⟩ now answer
    cases ht : answer.terminal with
    | false =>
      simp only [AccessLogBody.run, hflows ht, List.nil_append]
      exact ih _
    | true =>
      simp only [AccessLogBody.run, hends ht, emitOnce_of_none, List.nil_append]
      exact ih _

/-- **The polls of a wrapper that has not logged**: until the first error or end it has counted the
chunks and logged nothing; there it logs, once. -/
theorem run_spec (log : AccessLog) (polls : List (Instant × Answer ε)) (counted : UInt64) :
    (endedAt polls = none →
      ((⟨counted, some log⟩ : AccessLogBody).run polls).2 =
        (⟨counted + .ofNat (bytesSent polls), some log⟩, [])) ∧
    ∀ at', endedAt polls = some at' →
      ((⟨counted, some log⟩ : AccessLogBody).run polls).2.1.log = none ∧
        ((⟨counted, some log⟩ : AccessLogBody).run polls).2.2 =
          log.emit (counted + .ofNat (bytesSent polls)) at' := by
  induction polls generalizing counted with
  | nil =>
    refine ⟨fun _ => ?_, nofun⟩
    have hzero : counted + .ofNat (bytesSent ([] : List (Instant × Answer ε))) = counted :=
      UInt64.add_zero counted
    rw [hzero]
    rfl
  | cons poll polls ih =>
    obtain ⟨now, answer⟩ := poll
    obtain ⟨-, hflows, hends⟩ := pollNext_spec ⟨counted, some log⟩ now answer
    cases ht : answer.terminal with
    | false =>
      have hbytes : counted + .ofNat (bytesSent ((now, answer) :: polls)) =
          counted + .ofNat answer.length + .ofNat (bytesSent polls) := by
        simp [bytesSent, ht, UInt64.add_assoc]
      have hended : endedAt ((now, answer) :: polls) = endedAt polls := by
        simp [endedAt, ht]
      rw [hended, hbytes]
      simp only [AccessLogBody.run, hflows ht, List.nil_append]
      exact ih _
    | true =>
      have hbytes : counted + .ofNat (bytesSent ((now, answer) :: polls)) = counted := by
        simp [bytesSent, ht]
      have hended : endedAt ((now, answer) :: polls) = some now := by
        simp [endedAt, ht]
      rw [hended, hbytes]
      refine ⟨nofun, fun at' hat => ?_⟩
      cases hat
      simp only [AccessLogBody.run, hends ht, AccessLogBody.emitOnce]
      obtain ⟨hlog, heffects⟩ := run_of_logged polls counted
      exact ⟨hlog, by rw [heffects, List.append_nil]⟩

/-- **The access log is written exactly once.** Whatever the inner stream answers and whenever the
wrapper is dropped, every answer passes unchanged; and over its whole life `AccessLog::emit` runs
once, at the first error or end or else at the drop, with the bytes of the chunks before. So there
is one event, unless the access log is off, and it carries their number while a `u64` can. -/
theorem logged_exactly_once (log : AccessLog) (polls : List (Instant × Answer ε))
    (dropped : Instant) :
    ((AccessLogBody.new log).life polls dropped).1 = polls.map Prod.snd ∧
      ((AccessLogBody.new log).life polls dropped).2 =
        log.emit (.ofNat (bytesSent polls)) ((endedAt polls).getD dropped) ∧
      (((AccessLogBody.new log).life polls dropped).2.filter Effect.isAccess).length =
        (if log.accessLog then 1 else 0) ∧
      ∀ event, .access event ∈ ((AccessLogBody.new log).life polls dropped).2 →
        event.bytes = .ofNat (bytesSent polls) ∧
          (bytesSent polls < 2 ^ 64 → event.bytes.toNat = bytesSent polls) := by
  have heffects : ((AccessLogBody.new log).life polls dropped).2 =
      log.emit (.ofNat (bytesSent polls)) ((endedAt polls).getD dropped) := by
    have hlife : ((AccessLogBody.new log).life polls dropped).2 =
        ((AccessLogBody.new log).run polls).2.2 ++
          (((AccessLogBody.new log).run polls).2.1.emitOnce dropped).2 := rfl
    obtain ⟨hopen, hended⟩ := run_spec log polls 0
    rw [UInt64.zero_add] at hopen hended
    rw [hlife]
    unfold AccessLogBody.new
    cases hat : endedAt polls with
    | none =>
      simp only [hopen hat, AccessLogBody.emitOnce, List.nil_append, Option.getD_none]
    | some at' =>
      obtain ⟨hlog, hemit⟩ := hended at' hat
      simp only [AccessLogBody.emitOnce, hlog, hemit, List.append_nil, Option.getD_some]
  refine ⟨passed_run polls _, heffects, ?_, fun event hevent => ?_⟩
  · rw [heffects]
    unfold AccessLog.emit
    cases log.accessLog <;> rfl
  · have hbytes : event.bytes = .ofNat (bytesSent polls) := by
      rw [heffects] at hevent
      unfold AccessLog.emit at hevent
      rcases List.mem_cons.mp hevent with hsize | hevent
      · exact nomatch hsize
      · split at hevent
        · cases List.mem_singleton.mp hevent
          rfl
        · exact absurd hevent List.not_mem_nil
    exact ⟨hbytes, fun hfits => by rw [hbytes]; exact UInt64.toNat_ofNat_of_lt' hfits⟩

/-- A client that goes away after one chunk: the drop logs, with what was sent. -/
example (log : AccessLog) :
    ((AccessLogBody.new log).life
      [(1, (.ready (some (.ok [104, 105])) : Answer ε)), (2, .pending)] 5).2 = log.emit 2 5 := rfl

end Wrapper

end Nestrs.Telemetry
