import Nestrs.Lib.Except
import Nestrs.Lib.Timetable
import Nestrs.Schedule.CronJob
import Mathlib.Logic.Function.Basic

/-!
# The scheduler

Model of `crates/nestrs-schedule/src/scheduler.rs`: `configure` resolves every discovered job, and
`serve` runs one task for each until the app is shut down.

* Time is counted in nanoseconds of the clock of the runtime. The wall clock, which only cron jobs
  read, is a function of it. What comes from outside (`croner`, the time zone table, the deadlines
  that an interval sets for itself) is a parameter.
* A task is polled at any time after it could go on. `select!` waits for a timer and for the token;
  when both are ready either may win, so a poll takes the branch as an argument. `fire` is awaited
  inside a branch, where nothing else is waited for: a run ends when it ends.
* An interval is asked to skip what it has missed (`Env.Skips`): its next deadline is a period
  later, or, when it ticks later than the slack of the timer allows, the next one after now.
* The history of a job, latest run first, is kept beside its task.

Results:
* **`configure_spec`**: a boot fails at the first job with a bad expression or time zone;
* `inv_run`: in every run of the tasks each job keeps its timetable;
* **`interval_runs`**, **`cron_runs`**: what that means for an interval and for a cron expression;
* **`failed_runs`**: failed runs are logged, once, and nothing but a panic or the shutdown ends a
  job;
* **`tasks_shutdown`**: tasks return only after the shutdown is signalled, never during a run, and
  then all of them can.
-/

namespace Nestrs.Schedule

open Nestrs.Lib

variable {C Z R : Type}

/-! ## Configuration -/

/-- `Trigger`. -/
inductive Trigger where
  | interval (period : Nat)
  | timeout (delay : Nat)
  | cron (expr : String) (tz : Option String)
deriving DecidableEq, Repr

/-- `CronJobMeta`. -/
structure CronJobMeta (R : Type) where
  name : String
  trigger : Trigger
  run : R

/-- The parsers of `croner` and of `chrono_tz`. -/
structure Parsers (C Z : Type) where
  fromStr : String → Except String C
  parseTz : String → Except String Z

/-- `Job`: what a discovered meta is resolved into. -/
inductive Job (C Z R : Type) where
  | interval (name : String) (period : Nat) (run : R)
  | timeout (name : String) (delay : Nat) (run : R)
  | cron (name : String) (schedule : C) (tz : Option Z) (run : R)

/-- `Job::name`. -/
def Job.name : Job C Z R → String
  | interval name _ _ | timeout name _ _ | cron name _ _ _ => name

def invalidExpression (name expr : String) : String :=
  "cron job `" ++ name ++ "` has an invalid cron expression `" ++ expr ++ "`"

def invalidTimezone (name tz e : String) : String :=
  "cron job `" ++ name ++ "` has an invalid timezone `" ++ tz ++ "`: " ++ e

/-- `Scheduler::resolve`. -/
def resolve (parsers : Parsers C Z) (job : CronJobMeta R) : Except String (Job C Z R) :=
  match job.trigger with
  | .interval period => .ok (.interval job.name period job.run)
  | .timeout delay => .ok (.timeout job.name delay job.run)
  | .cron expr tz =>
    match parsers.fromStr expr with
    | .error _ => .error (invalidExpression job.name expr)
    | .ok schedule =>
      match tz with
      | none => .ok (.cron job.name schedule none job.run)
      | some tz =>
        match parsers.parseTz tz with
        | .error e => .error (invalidTimezone job.name tz e)
        | .ok zone => .ok (.cron job.name schedule (some zone) job.run)

/-- The jobs that `Scheduler::configure` resolves, in the order of discovery. -/
def configure (parsers : Parsers C Z) (metas : List (CronJobMeta R)) :
    Except String (List (Job C Z R)) :=
  metas.mapM (resolve parsers)

/-- The trigger that `#[cron_job]` emits. `consts` is what the paths of the program stand for. -/
def Trigger.ofMacro (consts : String → String) : CronJob.Trigger → Trigger
  | .interval ms => .interval (ms * 1000000)
  | .timeout ms => .timeout (ms * 1000000)
  | .cron (.str lit) tz => .cron lit tz
  | .cron (.other tokens) tz => .cron (consts tokens) tz

/-- A meta that can be resolved: of a cron expression, the expression and the time zone parse. -/
def CronJobMeta.Valid (parsers : Parsers C Z) (job : CronJobMeta R) : Prop :=
  ∀ expr tz, job.trigger = .cron expr tz →
    (∃ schedule, parsers.fromStr expr = .ok schedule) ∧
      ∀ name, tz = some name → ∃ zone, parsers.parseTz name = .ok zone

/-- What `resolve` says of a meta that cannot be resolved: the expression is looked at first. -/
inductive Invalid (parsers : Parsers C Z) (job : CronJobMeta R) : String → Prop where
  | expression (expr : String) (tz : Option String) (e : String)
      (ht : job.trigger = .cron expr tz) (he : parsers.fromStr expr = .error e) :
      Invalid parsers job (invalidExpression job.name expr)
  | timezone (expr name : String) (schedule : C) (e : String)
      (ht : job.trigger = .cron expr (some name)) (hexpr : parsers.fromStr expr = .ok schedule)
      (he : parsers.parseTz name = .error e) :
      Invalid parsers job (invalidTimezone job.name name e)

section Configure

variable {parsers : Parsers C Z} {job : CronJobMeta R}

theorem resolve_spec (parsers : Parsers C Z) (job : CronJobMeta R) :
    (job.Valid parsers ∧ ∃ resolved, resolve parsers job = .ok resolved ∧
      resolved.name = job.name) ∨
    ∃ e, Invalid parsers job e ∧ resolve parsers job = .error e := by
  obtain ⟨name, trigger, run⟩ := job
  cases trigger with
  | interval period => exact .inl ⟨nofun, _, rfl, rfl⟩
  | timeout delay => exact .inl ⟨nofun, _, rfl, rfl⟩
  | cron expr tz =>
    cases hexpr : parsers.fromStr expr with
    | error e => exact .inr ⟨_, .expression expr tz e rfl hexpr, by simp [resolve, hexpr]⟩
    | ok schedule =>
      cases tz with
      | none =>
        refine .inl ⟨?_, _, by simp [resolve, hexpr]; rfl, rfl⟩
        rintro expr' tz' ht
        cases ht
        exact ⟨⟨schedule, hexpr⟩, nofun⟩
      | some zoneName =>
        cases htz : parsers.parseTz zoneName with
        | error e =>
          exact .inr ⟨_, .timezone expr zoneName schedule e rfl hexpr htz, by
            simp [resolve, hexpr, htz]⟩
        | ok zone =>
          refine .inl ⟨?_, _, by simp [resolve, hexpr, htz]; rfl, rfl⟩
          rintro expr' tz' ht
          cases ht
          refine ⟨⟨schedule, hexpr⟩, ?_⟩
          rintro name' h
          cases h
          exact ⟨zone, htz⟩

theorem not_valid_of_invalid {e : String} (h : Invalid parsers job e) : ¬ job.Valid parsers := by
  intro hvalid
  cases h with
  | expression expr tz e ht he =>
    obtain ⟨⟨schedule, hok⟩, -⟩ := hvalid expr tz ht
    exact nomatch he.symm.trans hok
  | timezone expr name schedule e ht hexpr he =>
    obtain ⟨zone, hok⟩ := (hvalid expr (some name) ht).2 name rfl
    exact nomatch he.symm.trans hok

/-- **When the scheduler boots.** It does iff every discovered job can be resolved, with one job for
each in their order. Otherwise it fails with what it says of the first that cannot. -/
theorem configure_spec (parsers : Parsers C Z) (cronJobs : List (CronJobMeta R)) :
    ((∀ job ∈ cronJobs, job.Valid parsers) ↔ ∃ jobs, configure parsers cronJobs = .ok jobs) ∧
    (∀ jobs, configure parsers cronJobs = .ok jobs → jobs.map Job.name = cronJobs.map (·.name)) ∧
    ∀ e, configure parsers cronJobs = .error e ↔
      ∃ before job after, cronJobs = before ++ job :: after ∧
        (∀ other ∈ before, other.Valid parsers) ∧ Invalid parsers job e := by
  have hvalid : ∀ job : CronJobMeta R,
      job.Valid parsers ↔ ∃ resolved, resolve parsers job = .ok resolved := by
    intro job
    rcases resolve_spec parsers job with ⟨hvalid, resolved, hok, -⟩ | ⟨e, hinvalid, herr⟩
    · exact ⟨fun _ => ⟨resolved, hok⟩, fun _ => hvalid⟩
    · refine ⟨fun h => absurd h (not_valid_of_invalid hinvalid), ?_⟩
      rintro ⟨resolved, hok⟩
      exact nomatch herr.symm.trans hok
  have hinvalid : ∀ (job : CronJobMeta R) e,
      resolve parsers job = .error e ↔ Invalid parsers job e := by
    intro job e
    rcases resolve_spec parsers job with ⟨hjob, resolved, hok, -⟩ | ⟨e', hjob, herr⟩
    · refine ⟨fun h => ?_, fun h => absurd hjob (not_valid_of_invalid h)⟩
      exact nomatch h.symm.trans hok
    · rw [herr, Except.error.injEq]
      refine ⟨fun h => h ▸ hjob, fun h => ?_⟩
      cases hjob <;> cases h <;> simp_all
  refine ⟨⟨fun h => ?_, ?_⟩, fun jobs hjobs => ?_, fun e => ?_⟩
  · cases hconfigure : configure parsers cronJobs with
    | ok jobs => exact ⟨jobs, rfl⟩
    | error e =>
      obtain ⟨before, job, after, rfl, -, herr⟩ := mapM_eq_error.mp hconfigure
      have hjob := h job (by simp)
      obtain ⟨resolved, hok⟩ := (hvalid job).mp hjob
      exact nomatch herr.symm.trans hok
  · rintro ⟨jobs, hjobs⟩
    have hboth : List.Forall₂ (fun job resolved => job.Valid parsers ∧
        resolve parsers job = .ok resolved) cronJobs jobs :=
      (mapM_eq_ok.mp hjobs).imp fun job resolved hok => ⟨(hvalid job).mpr ⟨resolved, hok⟩, hok⟩
    exact ((List.forall₂_and_left _ _).mp hboth).1
  · rw [← List.forall₂_eq_eq_eq, List.forall₂_map_left_iff, List.forall₂_map_right_iff]
    refine (mapM_eq_ok.mp hjobs).flip.imp fun resolved job hok => ?_
    rcases resolve_spec parsers job with ⟨-, resolved', hok', hname⟩ | ⟨e, -, herr⟩
    · cases hok.symm.trans hok'
      exact hname
    · exact nomatch herr.symm.trans hok
  · simp only [configure, mapM_eq_error, hinvalid, hvalid]

end Configure

/-! ## The tasks -/

/-- How one run ends. -/
inductive Outcome where
  | ok
  | error (message : String)
  | panic
deriving DecidableEq, Repr

/-- What the tasks run on: the deadline that an interval sets for itself, by the one that has
passed, its period and the time when it ticks; the wall clock; the occurrences of a schedule. -/
structure Env (C Z : Type) where
  nextTick : Nat → Nat → Nat → Nat
  wall : Nat → Nat
  findNextOccurrence : C → Option Z → Nat → Option Nat

/-- What the task of a job is waiting for. -/
inductive Task where
  | spawned
  | arming (deadline : Nat)
  | selecting (slot deadline : Nat)
  | running (next : Nat)
  | idle
  | returned
  | panicked
deriving DecidableEq, Repr

/-- The branches of `select!`. -/
inductive Branch where
  | cancelled
  | timer
deriving DecidableEq, Repr

namespace Env

variable (env : Env C Z)

/-- `next_delay`. -/
def nextDelay (schedule : C) (tz : Option Z) (now : Nat) : Option Nat :=
  (env.findNextOccurrence schedule tz (env.wall now)).map fun next => next - env.wall now

/-- The head of the loop of a cron job. -/
def await (schedule : C) (tz : Option Z) (now : Nat) : Task :=
  match env.nextDelay schedule tz now with
  | some wait => .selecting (env.wall now + wait) (now + wait)
  | none => .idle

/-- `run_job`, up to the first wait. An interval must not have a period of zero. -/
def enter (now : Nat) : Job C Z R → Task
  | .interval _ period _ => if period = 0 then .panicked else .arming now
  | .timeout _ delay _ => .selecting (now + delay) (now + delay)
  | .cron _ schedule tz _ => env.await schedule tz now

/-- The deadline that a timer sets for itself when it fires. -/
def rearm (slot now : Nat) : Job C Z R → Nat
  | .interval _ period _ => env.nextTick slot period now
  | .timeout _ _ _ | .cron _ _ _ _ => 0

/-- `run_job` from the end of a run to the next wait. -/
def resume (now next : Nat) : Job C Z R → Task
  | .interval _ _ _ => .selecting next next
  | .timeout _ _ _ => .idle
  | .cron _ schedule tz _ => env.await schedule tz now

end Env

/-- A job and its history: its task, when that was first polled, and its runs, latest first. -/
structure JobState where
  task : Task
  began : Nat
  runs : List (TimedRun Outcome)
deriving DecidableEq, Repr

namespace JobState

/-- The task is polled. -/
def poll (env : Env C Z) (job : Job C Z R) (now : Nat) (cancelled : Bool) (branch : Branch)
    (js : JobState) : Option JobState :=
  match js.task with
  | .spawned => some { js with task := env.enter now job, began := now }
  | .arming deadline =>
    if deadline ≤ now then
      let next := env.rearm deadline now job
      some { js with task := .selecting next next }
    else none
  | .selecting slot deadline =>
    match branch with
    | .cancelled => if cancelled then some { js with task := .returned } else none
    | .timer =>
      if deadline ≤ now then
        some { js with
          task := .running (env.rearm slot now job)
          runs := ⟨slot, now, none⟩ :: js.runs }
      else none
  | .idle => if cancelled then some { js with task := .returned } else none
  | .running _ | .returned | .panicked => none

/-- The run that is going on ends. A panic unwinds the task. -/
def finish (env : Env C Z) (job : Job C Z R) (now : Nat) (outcome : Outcome) (js : JobState) :
    Option JobState :=
  match js.task with
  | .running next =>
    some { js with
      task := if outcome = .panic then .panicked else env.resume now next job
      runs := Plan.finish now outcome js.runs }
  | _ => none

end JobState

/-- A line of the log: the task that writes it, the name of its job, and the error. -/
structure Logged where
  task : Nat
  job : String
  error : String
deriving DecidableEq, Repr

/-- The tasks of `Scheduler::serve`. -/
structure Serving where
  now : Nat
  cancelled : Bool
  jobs : Nat → JobState
  log : List Logged

/-- What can happen: time passes, the shutdown is signalled, a task is polled, a run ends. -/
inductive Action where
  | advance (δ : Nat)
  | cancel
  | poll (i : Nat) (branch : Branch)
  | finish (i : Nat) (outcome : Outcome)
deriving DecidableEq, Repr

/-- What `fire` logs. -/
def errorOf (i : Nat) (name : String) : Outcome → List Logged
  | .error message => [⟨i, name, message⟩]
  | .ok | .panic => []

namespace Serving

/-- `serve`, when the tasks have been spawned. -/
def start (now : Nat) (cancelled : Bool) : Serving :=
  ⟨now, cancelled, fun _ => ⟨.spawned, now, []⟩, []⟩

def step (env : Env C Z) (jobs : List (Job C Z R)) (s : Serving) : Action → Option Serving
  | .advance δ => some { s with now := s.now + δ }
  | .cancel => some { s with cancelled := true }
  | .poll i branch => do
    let job ← jobs[i]?
    let js ← (s.jobs i).poll env job s.now s.cancelled branch
    some { s with jobs := Function.update s.jobs i js }
  | .finish i outcome => do
    let job ← jobs[i]?
    let js ← (s.jobs i).finish env job s.now outcome
    some { s with
      jobs := Function.update s.jobs i js
      log := errorOf i job.name outcome ++ s.log }

def run (env : Env C Z) (jobs : List (Job C Z R)) (s : Serving) (actions : List Action) :
    Option Serving :=
  actions.foldlM (step env jobs) s

/-- `serve` has returned: with no job when the shutdown is signalled, else when every task has
ended. -/
def Finished (jobs : List (Job C Z R)) (s : Serving) : Prop :=
  if jobs = [] then s.cancelled = true
  else ∀ i < jobs.length, (s.jobs i).task = .returned ∨ (s.jobs i).task = .panicked

end Serving

/-! ## What each job keeps -/

namespace Job

/-- **The timetable of a job.** An interval runs at multiples of its period after its first poll, a
one-shot once, and a cron job at the next occurrence after the last time that it looked. -/
def plan (env : Env C Z) (began : Nat) : Job C Z R → Plan Outcome
  | .interval _ period _ =>
    ⟨fun slot => ∃ armed, began ≤ armed ∧ slot = env.nextTick began period armed,
      fun r slot => slot = env.nextTick r.slot period r.start,
      fun t slot => slot ≤ t⟩
  | .timeout _ delay _ =>
    ⟨fun slot => slot = began + delay, fun _ _ => False, fun t slot => slot ≤ t⟩
  | .cron _ schedule tz _ =>
    ⟨fun slot => ∃ wait, env.nextDelay schedule tz began = some wait ∧ slot = env.wall began + wait,
      fun r slot => ∃ e o wait, r.ended = some (e, o) ∧
        env.nextDelay schedule tz e = some wait ∧ slot = env.wall e + wait,
      fun t slot => (∀ u d, env.wall u + d ≤ env.wall (u + d)) → slot ≤ env.wall t⟩

end Job

/-- The interval that the timer refuses. -/
def Job.Refused (job : Job C Z R) : Prop := ∃ name run, job = .interval name 0 run

/-- Nothing is left to run: a one-shot has run, or a cron expression had no next occurrence when its
job looked. -/
def Job.Exhausted (env : Env C Z) (now : Nat) (runs : List (TimedRun Outcome)) : Job C Z R → Prop
  | .interval _ _ _ => False
  | .timeout _ _ _ => runs ≠ []
  | .cron _ schedule tz _ => ∃ t ≤ now, env.nextDelay schedule tz t = none

/-- None of the runs has panicked. -/
def Calm (runs : List (TimedRun Outcome)) : Prop := ∀ r ∈ runs, ∀ e, r.ended ≠ some (e, .panic)

/-- **What holds of a job at any time**: its history keeps its timetable, and its task is where the
history says. -/
structure JobInv (env : Env C Z) (job : Job C Z R) (now : Nat) (js : JobState) : Prop where
  began : js.began ≤ now
  kept : (job.plan env js.began).Kept now js.runs
  refused : job.Refused → js.runs = [] ∧ (js.task = .spawned ∨ js.task = .panicked)
  task : match js.task with
    | .spawned => js.runs = []
    | .arming deadline => js.runs = [] ∧ deadline = js.began ∧ ∃ name period run,
        job = .interval name period run
    | .selecting slot deadline => Plan.Settled js.runs ∧ Calm js.runs ∧
        (job.plan env js.began).Next js.runs slot ∧
        ∀ t, deadline ≤ t → (job.plan env js.began).reached t slot
    | .running next => ∃ slot start rest, js.runs = ⟨slot, start, none⟩ :: rest ∧
        Plan.Settled rest ∧ Calm rest ∧ next = env.rearm slot start job
    | .idle => Plan.Settled js.runs ∧ Calm js.runs ∧ job.Exhausted env now js.runs
    | .returned => Plan.Settled js.runs ∧ Calm js.runs
    | .panicked => Plan.Settled js.runs ∧
        (job.Refused ∨
          ∃ r rest e, js.runs = r :: rest ∧ r.ended = some (e, .panic) ∧ Calm rest)

section Steps

variable {env : Env C Z} {job : Job C Z R} {now now' : Nat} {js js' : JobState} {cancelled : Bool}
  {branch : Branch} {outcome : Outcome} {schedule : C} {tz : Option Z} {name : String} {run : R}

theorem Job.Exhausted.mono {runs : List (TimedRun Outcome)} (h : job.Exhausted env now runs)
    (hnow : now ≤ now') : job.Exhausted env now' runs := by
  cases job with
  | interval name period run => exact h
  | timeout name delay run => exact h
  | cron name schedule tz run =>
    obtain ⟨t, ht, hnone⟩ := h
    exact ⟨t, le_trans ht hnow, hnone⟩

theorem JobInv.mono (h : JobInv env job now js) (hnow : now ≤ now') : JobInv env job now' js := by
  refine ⟨le_trans h.began hnow, h.kept.mono hnow, h.refused, ?_⟩
  obtain ⟨task, began, runs⟩ := js
  have htask := h.task
  cases task with
  | idle => exact ⟨htask.1, htask.2.1, htask.2.2.mono hnow⟩
  | _ => exact htask

/-- Where a cron job waits, once it has looked at the clock at `now`. -/
theorem await_cases (env : Env C Z) (schedule : C) (tz : Option Z) (now : Nat) :
    (∃ wait, env.nextDelay schedule tz now = some wait ∧
      env.await schedule tz now = .selecting (env.wall now + wait) (now + wait)) ∨
    (env.nextDelay schedule tz now = none ∧ env.await schedule tz now = .idle) := by
  unfold Env.await
  cases env.nextDelay schedule tz now with
  | none => exact .inr ⟨rfl, rfl⟩
  | some wait => exact .inl ⟨wait, rfl, rfl⟩

theorem reached_of_wait {wait t : Nat} (ht : now + wait ≤ t)
    (hsteady : ∀ u d, env.wall u + d ≤ env.wall (u + d)) :
    env.wall now + wait ≤ env.wall t := by
  obtain ⟨d, rfl⟩ := Nat.exists_eq_add_of_le ht
  calc env.wall now + wait ≤ env.wall (now + wait) := hsteady now wait
    _ ≤ env.wall (now + wait) + d := Nat.le_add_right _ _
    _ ≤ env.wall (now + wait + d) := hsteady _ d

/-- The first poll. -/
theorem jobInv_enter (env : Env C Z) (job : Job C Z R) (now : Nat) :
    JobInv env job now ⟨env.enter now job, now, []⟩ := by
  refine ⟨le_refl now, Plan.kept_nil, ?_, ?_⟩
  · rintro ⟨name, run, rfl⟩
    simp [Env.enter]
  cases job with
  | interval name period run =>
    by_cases hzero : period = 0
    · subst hzero
      simp [Env.enter, Plan.Settled, Job.Refused]
    · simp [Env.enter, hzero]
  | timeout name delay run =>
    exact ⟨nofun, nofun, .inl ⟨rfl, rfl⟩, fun _ h => h⟩
  | cron name schedule tz run =>
    rw [Env.enter]
    rcases await_cases env schedule tz now with ⟨wait, hwait, htask⟩ | ⟨hnone, htask⟩
    · rw [htask]
      exact ⟨nofun, nofun, .inl ⟨rfl, wait, hwait, rfl⟩,
        fun _ h hsteady => reached_of_wait h hsteady⟩
    · rw [htask]
      exact ⟨nofun, nofun, now, le_refl now, hnone⟩

/-- A poll. -/
theorem jobInv_poll (h : JobInv env job now js)
    (hpoll : js.poll env job now cancelled branch = some js') : JobInv env job now js' := by
  obtain ⟨task, began, runs⟩ := js
  obtain ⟨hbegan, hkept, hrefused, htask⟩ := h
  cases task with
  | spawned =>
    cases hpoll
    cases (htask : runs = [])
    exact jobInv_enter env job now
  | arming deadline =>
    obtain ⟨rfl, rfl, name, period, run, rfl⟩ := htask
    simp only [JobState.poll, Option.ite_none_right_eq_some, Option.some_inj] at hpoll
    obtain ⟨-, rfl⟩ := hpoll
    exact ⟨hbegan, hkept, fun hr => by simpa using (hrefused hr).2, nofun, nofun,
      .inl ⟨rfl, now, hbegan, rfl⟩, fun _ h => h⟩
  | selecting slot deadline =>
    obtain ⟨hsettled, hcalm, hnext, hreached⟩ := htask
    cases branch with
    | cancelled =>
      simp only [JobState.poll, Option.ite_none_right_eq_some, Option.some_inj] at hpoll
      obtain ⟨-, rfl⟩ := hpoll
      exact ⟨hbegan, hkept, fun hr => by simpa using (hrefused hr).2, hsettled, hcalm⟩
    | timer =>
      simp only [JobState.poll, Option.ite_none_right_eq_some, Option.some_inj] at hpoll
      obtain ⟨hdue, rfl⟩ := hpoll
      exact ⟨hbegan, hkept.start hsettled hnext (hreached now hdue),
        fun hr => by simpa using (hrefused hr).2, slot, now, runs, rfl, hsettled, hcalm, rfl⟩
  | idle =>
    simp only [JobState.poll, Option.ite_none_right_eq_some, Option.some_inj] at hpoll
    obtain ⟨-, rfl⟩ := hpoll
    exact ⟨hbegan, hkept, fun hr => by simpa using (hrefused hr).2, htask.1, htask.2.1⟩
  | running next => exact nomatch hpoll
  | returned => exact nomatch hpoll
  | panicked => exact nomatch hpoll

/-- The end of a run. -/
theorem jobInv_finish (h : JobInv env job now js)
    (hfinish : js.finish env job now outcome = some js') : JobInv env job now js' := by
  obtain ⟨task, began, runs⟩ := js
  obtain ⟨hbegan, hkept, hrefused, htask⟩ := h
  cases task with
  | running next =>
    obtain ⟨slot, start, rest, hruns, hsettled, hcalm, hnext⟩ := htask
    cases (hruns : runs = _)
    cases hfinish
    have hclosed : Plan.Settled (Plan.finish now outcome (⟨slot, start, none⟩ :: rest)) :=
      List.forall_mem_cons.mpr ⟨rfl, hsettled⟩
    refine ⟨hbegan, hkept.finish outcome, fun hr => by simpa using (hrefused hr).2, ?_⟩
    by_cases hpanic : outcome = .panic
    · subst hpanic
      simp only [if_true]
      exact ⟨hclosed, .inr ⟨_, rest, now, rfl, rfl, hcalm⟩⟩
    · have hstill : Calm (Plan.finish now outcome (⟨slot, start, none⟩ :: rest)) :=
        List.forall_mem_cons.mpr ⟨fun e he =>
          hpanic (by simpa using congrArg (Option.map Prod.snd) he), hcalm⟩
      simp only [if_neg hpanic]
      cases job with
      | interval name period run =>
        exact ⟨hclosed, hstill, .inr ⟨_, rest, rfl, hnext⟩, fun _ h => h⟩
      | timeout name delay run => exact ⟨hclosed, hstill, List.cons_ne_nil _ _⟩
      | cron name schedule tz run =>
        rw [Env.resume]
        rcases await_cases env schedule tz now with ⟨wait, hwait, hawait⟩ | ⟨hnone, hawait⟩
        · rw [hawait]
          exact ⟨hclosed, hstill, .inr ⟨_, rest, rfl, now, outcome, wait, rfl, hwait, rfl⟩,
            fun _ h hsteady => reached_of_wait h hsteady⟩
        · rw [hawait]
          exact ⟨hclosed, hstill, now, le_refl now, hnone⟩
  | spawned => exact nomatch hfinish
  | arming deadline => exact nomatch hfinish
  | selecting slot deadline => exact nomatch hfinish
  | idle => exact nomatch hfinish
  | returned => exact nomatch hfinish
  | panicked => exact nomatch hfinish

end Steps

/-! ## Runs of all tasks -/

section Serve

variable {env : Env C Z} {jobs : List (Job C Z R)} {s s' : Serving} {a : Action}
  {actions : List Action} {i : Nat} {job : Job C Z R} {now₀ : Nat} {c₀ : Bool}

/-- What one step does. -/
theorem step_cases (h : s.step env jobs a = some s') :
    (∃ δ, a = .advance δ ∧ s' = { s with now := s.now + δ }) ∨
    (a = .cancel ∧ s' = { s with cancelled := true }) ∨
    (∃ i branch job js, a = .poll i branch ∧ jobs[i]? = some job ∧
      (s.jobs i).poll env job s.now s.cancelled branch = some js ∧
      s' = { s with jobs := Function.update s.jobs i js }) ∨
    ∃ i outcome job js, a = .finish i outcome ∧ jobs[i]? = some job ∧
      (s.jobs i).finish env job s.now outcome = some js ∧
      s' = { s with
        jobs := Function.update s.jobs i js
        log := errorOf i job.name outcome ++ s.log } := by
  cases a with
  | advance δ => exact .inl ⟨δ, rfl, by simpa [Serving.step] using h.symm⟩
  | cancel => exact .inr (.inl ⟨rfl, by simpa [Serving.step] using h.symm⟩)
  | poll i branch =>
    simp only [Serving.step, Option.bind_eq_bind, Option.bind_eq_some_iff, Option.some_inj] at h
    obtain ⟨job, hjob, js, hjs, rfl⟩ := h
    exact .inr (.inr (.inl ⟨i, branch, job, js, rfl, hjob, hjs, rfl⟩))
  | finish i outcome =>
    simp only [Serving.step, Option.bind_eq_bind, Option.bind_eq_some_iff, Option.some_inj] at h
    obtain ⟨job, hjob, js, hjs, rfl⟩ := h
    exact .inr (.inr (.inr ⟨i, outcome, job, js, rfl, hjob, hjs, rfl⟩))

/-- Every job keeps its invariant. -/
def Inv (env : Env C Z) (jobs : List (Job C Z R)) (s : Serving) : Prop :=
  ∀ i job, jobs[i]? = some job → JobInv env job s.now (s.jobs i)

theorem inv_update {i : Nat} {js : JobState} {log : List Logged} (h : Inv env jobs s)
    (hjs : ∀ job, jobs[i]? = some job → JobInv env job s.now js) :
    Inv env jobs { s with jobs := Function.update s.jobs i js, log := log } := by
  intro k job hjob
  by_cases hk : k = i
  · subst hk
    simpa using hjs job hjob
  · simpa [Function.update_of_ne hk] using h k job hjob

theorem inv_step (h : Inv env jobs s) (hstep : s.step env jobs a = some s') : Inv env jobs s' := by
  rcases step_cases hstep with ⟨δ, -, rfl⟩ | ⟨-, rfl⟩ | ⟨i, branch, job, js, -, hjob, hjs, rfl⟩ |
    ⟨i, outcome, job, js, -, hjob, hjs, rfl⟩
  · exact fun k job hjob => (h k job hjob).mono (Nat.le_add_right _ _)
  · exact h
  · refine inv_update h fun job' hjob' => ?_
    cases hjob.symm.trans hjob'
    exact jobInv_poll (h i job hjob) hjs
  · refine inv_update h fun job' hjob' => ?_
    cases hjob.symm.trans hjob'
    exact jobInv_finish (h i job hjob) hjs

theorem inv_start : Inv env jobs (Serving.start now₀ c₀) := by
  intro i job _
  exact ⟨le_refl _, Plan.kept_nil, fun _ => ⟨rfl, .inl rfl⟩, rfl⟩

/-- **In every run of the tasks each job keeps its timetable.** -/
theorem inv_run (hrun : (Serving.start now₀ c₀).run env jobs actions = some s) :
    Inv env jobs s :=
  foldlM_invariant (fun _ _ _ => inv_step) actions inv_start hrun

/-! ## Intervals -/

/-- What is documented of `tokio::time::Interval` with `MissedTickBehavior::Skip`, for a timer with
this slack: a tick in time moves the deadline by one period, a late one to the next of the multiples
that is after now. -/
structure Env.Skips (env : Env C Z) (slack : Nat) : Prop where
  inTime : ∀ deadline period now, now ≤ deadline + slack →
    env.nextTick deadline period now = deadline + period
  late : ∀ deadline period now, 0 < period → deadline + slack < now →
    (∃ k, env.nextTick deadline period now = deadline + k * period) ∧
      now < env.nextTick deadline period now ∧ env.nextTick deadline period now ≤ now + period

variable {slack : Nat}

/-- Either way the deadline moves by a multiple of the period, and by one at least. -/
theorem Env.Skips.multiple (h : env.Skips slack) {period : Nat} (hperiod : 0 < period)
    (deadline now : Nat) :
    ∃ k, 1 ≤ k ∧ env.nextTick deadline period now = deadline + k * period := by
  by_cases hnow : now ≤ deadline + slack
  · exact ⟨1, le_refl 1, by rw [h.inTime deadline period now hnow, one_mul]⟩
  · obtain ⟨⟨k, hk⟩, hafter, -⟩ := h.late deadline period now hperiod (Nat.lt_of_not_le hnow)
    refine ⟨k, Nat.one_le_iff_ne_zero.mpr fun hzero => ?_, hk⟩
    rw [hk, hzero, zero_mul] at hafter
    omega

/-- The runs of an interval that was first polled at `began`. -/
structure IntervalRuns (slack period began now : Nat) (runs : List (TimedRun Outcome)) : Prop where
  /-- Each is for a multiple of the period, from the first on, and does not start before it. -/
  slots : ∀ r ∈ runs, (∃ k, 1 ≤ k ∧ r.slot = began + k * period) ∧ r.slot ≤ r.start
  /-- No multiple is run twice, and no two runs overlap. -/
  apart : runs.Pairwise fun later earlier =>
    earlier.slot < later.slot ∧ earlier.EndedBy later.start
  /-- After a run that started within the slack comes the next multiple, after a later one the first
  multiple that was then still to come. -/
  next : runs.IsChain fun later earlier =>
    (earlier.start ≤ earlier.slot + slack → later.slot = earlier.slot + period) ∧
    (earlier.slot + slack < earlier.start →
      earlier.start < later.slot ∧ later.slot ≤ earlier.start + period)
  /-- There is at most one run for each period that has passed. -/
  count : runs.length * period ≤ now - began
  /-- There is no burst, when the slack is below the period: as many periods pass between the starts
  of two runs as there are runs between them, and more. -/
  spread : slack < period → ∀ newer later between earlier older,
    runs = newer ++ later :: (between ++ earlier :: older) →
      earlier.start + between.length * period < later.start

theorem interval_kept {name : String} {period : Nat} {run : R} {now : Nat} {js : JobState}
    (hskips : env.Skips slack) (h : JobInv env (.interval name period run) now js) :
    IntervalRuns slack period js.began now js.runs := by
  rcases Nat.eq_zero_or_pos period with rfl | hperiod
  · obtain ⟨hruns, -⟩ := h.refused ⟨name, run, rfl⟩
    rw [hruns]
    exact ⟨nofun, List.Pairwise.nil, List.isChain_nil, Nat.zero_le _,
      fun hslack => absurd hslack (Nat.not_lt_zero slack)⟩
  have hnext := hskips.multiple hperiod
  have hgap : ∀ deadline now, deadline + period ≤ env.nextTick deadline period now := by
    intro deadline now
    obtain ⟨k, hk, hslot⟩ := hnext deadline now
    rw [hslot]
    exact Nat.add_le_add_left (Nat.le_mul_of_pos_left period hk) deadline
  refine ⟨fun r hr => ⟨?_, h.kept.reached r hr⟩, ?_, ?_, ?_, ?_⟩
  · refine h.kept.slot_induction (P := fun slot => ∃ k, 1 ≤ k ∧ slot = js.began + k * period)
      ?_ ?_ r hr
    · rintro slot ⟨armed, -, rfl⟩
      exact hnext js.began armed
    · rintro r - ⟨k, hk, hslot⟩ slot hfollow
      obtain ⟨j, hj, hstep⟩ := hnext r.slot r.start
      refine ⟨k + j, by omega, ?_⟩
      rw [show slot = _ from hfollow, hstep, hslot, Nat.add_mul, Nat.add_assoc]
  · refine List.Pairwise.and (h.kept.pairwise_slot ?_) h.kept.pairwise_ended
    rintro r - slot hfollow
    have := hgap r.slot r.start
    rw [show slot = _ from hfollow]
    omega
  · refine h.kept.chain.imp fun later earlier hrel => ?_
    rw [show later.slot = _ from hrel.1]
    exact ⟨hskips.inTime _ _ _, fun hlate => (hskips.late _ _ _ hperiod hlate).2⟩
  · cases hruns : js.runs with
    | nil => simp
    | cons r rest =>
      have hkept := h.kept
      rw [hruns] at hkept
      have hlength : js.began + (rest.length + 1) * period ≤ r.slot := by
        refine hkept.length_mul_le ?_ ?_
        · rintro slot ⟨armed, -, rfl⟩
          exact hgap js.began armed
        · rintro r' - slot hfollow
          rw [show slot = _ from hfollow]
          exact hgap r'.slot r'.start
      have hreached : r.slot ≤ r.start := hkept.reached r List.mem_cons_self
      have hstarted : r.start ≤ now := hkept.started r List.mem_cons_self
      rw [List.length_cons]
      omega
  · intro hslack newer later between earlier older hruns
    have hkept := h.kept
    rw [hruns] at hkept
    have hlast := hkept.drop
    -- in time or late, the slot after a run is still to come when the run starts
    have hcome : earlier.start + 1 ≤ env.nextTick earlier.slot period earlier.start := by
      by_cases hnow : earlier.start ≤ earlier.slot + slack
      · rw [hskips.inTime _ _ _ hnow]
        omega
      · exact (hskips.late _ _ _ hperiod (Nat.lt_of_not_le hnow)).2.1
    have hslot : earlier.start + 1 + between.length * period ≤ later.slot := by
      refine hlast.add_mul_le ?_ ?_
      · rintro slot hfollow
        rw [show slot = _ from hfollow]
        exact hcome
      · rintro r - slot hfollow
        rw [show slot = _ from hfollow]
        exact hgap r.slot r.start
    have hreached : later.slot ≤ later.start := hlast.reached later List.mem_cons_self
    omega

/-- **An interval job, in every run of the scheduler**, runs once for a multiple of its period, one
run at a time, and skips only what it has missed. -/
theorem interval_runs {name : String} {period : Nat} {run : R} (hskips : env.Skips slack)
    (hrun : (Serving.start now₀ c₀).run env jobs actions = some s)
    (hjob : jobs[i]? = some (.interval name period run)) :
    IntervalRuns slack period (s.jobs i).began s.now (s.jobs i).runs :=
  interval_kept hskips (inv_run hrun i _ hjob)

/-- The ticks of tokio, whose timer has a slack of 5 ms. -/
def tokioTick (deadline period now : Nat) : Nat :=
  if now ≤ deadline + 5000000 then deadline + period
  else now + period - (now - deadline) % period

/-- The schedule `gap` is due at every multiple of `gap + 1`. -/
def multiples : Env Nat Unit :=
  ⟨tokioTick, id, fun gap _ now => some ((now / (gap + 1) + 1) * (gap + 1))⟩

theorem multiples_skips : multiples.Skips 5000000 where
  inTime _ _ _ h := if_pos h
  late deadline period now hperiod hlate := by
    have hmod := Nat.mod_lt (now - deadline) hperiod
    have hdiv := Nat.div_add_mod (now - deadline) period
    have htick : multiples.nextTick deadline period now =
        now + period - (now - deadline) % period := if_neg (Nat.not_le.mpr hlate)
    rw [htick]
    refine ⟨⟨(now - deadline) / period + 1, ?_⟩, by omega, by omega⟩
    rw [Nat.add_mul, one_mul, Nat.mul_comm]
    omega

/-- An interval of 10 ms beside a cron job for the multiples of 60. -/
def twoJobs : List (Job Nat Unit Unit) := [.interval "Tick" 10000000 (), .cron "Minute" 59 none ()]

/-- The second run of the interval is late: it is due at 20 ms, and polled at 35 ms. -/
def late : List Action :=
  [.poll 0 .timer, .poll 0 .timer, .advance 10000000, .poll 0 .timer, .advance 25000000,
    .finish 0 (.error "boom"), .poll 0 .timer]

theorem late_interval_runs : ∃ s, (Serving.start 0 false).run multiples twoJobs late = some s ∧
    (s.jobs 0).runs =
      [⟨20000000, 35000000, none⟩, ⟨10000000, 10000000, some (35000000, .error "boom")⟩] ∧
    IntervalRuns 5000000 10000000 (s.jobs 0).began s.now (s.jobs 0).runs := by
  have hruns : ((Serving.start 0 false).run multiples twoJobs late).map (fun s => (s.jobs 0).runs) =
      some [⟨20000000, 35000000, none⟩, ⟨10000000, 10000000, some (35000000, .error "boom")⟩] := by
    decide +kernel
  obtain ⟨s, hs, hruns⟩ := Option.map_eq_some_iff.mp hruns
  exact ⟨s, hs, hruns, interval_runs multiples_skips hs rfl⟩

/-! ## Cron expressions and one-shots -/

/-- What is documented of `croner` and asked of the clock: the next occurrence is the first one
after now, and the wall clock does not fall behind the clock of the runtime. -/
structure Env.Sound (env : Env C Z) (occurs : C → Option Z → Nat → Prop) : Prop where
  next : ∀ schedule tz now o, env.findNextOccurrence schedule tz now = some o ↔
    occurs schedule tz o ∧ now < o ∧ ∀ o', occurs schedule tz o' → now < o' → o ≤ o'
  steady : ∀ t d, env.wall t + d ≤ env.wall (t + d)

theorem Env.Sound.wall_mono {occurs : C → Option Z → Nat → Prop} (h : env.Sound occurs) {t t' : Nat}
    (ht : t ≤ t') : env.wall t ≤ env.wall t' := by
  obtain ⟨d, rfl⟩ := Nat.exists_eq_add_of_le ht
  exact le_trans (Nat.le_add_right _ d) (h.steady t d)

/-- What a wait leads to is the next occurrence. -/
theorem Env.Sound.occurrence {occurs : C → Option Z → Nat → Prop} (h : env.Sound occurs)
    {schedule : C} {tz : Option Z} {now wait : Nat}
    (hwait : env.nextDelay schedule tz now = some wait) :
    occurs schedule tz (env.wall now + wait) ∧ env.wall now < env.wall now + wait ∧
      ∀ o, occurs schedule tz o → env.wall now < o → env.wall now + wait ≤ o := by
  obtain ⟨o, ho, rfl⟩ := Option.map_eq_some_iff.mp hwait
  have hnext := (h.next schedule tz (env.wall now) o).mp ho
  rwa [Nat.add_sub_of_le hnext.2.1.le]

/-- The runs of a cron job that was first polled at `began`. -/
structure CronRuns (env : Env C Z) (occurs : Nat → Prop) (began : Nat)
    (runs : List (TimedRun Outcome)) : Prop where
  /-- Each is for an occurrence after the first poll, and does not start before it. -/
  slots : ∀ r ∈ runs, occurs r.slot ∧ env.wall began < r.slot ∧ r.slot ≤ env.wall r.start
  /-- No occurrence is run twice, and no two runs overlap. -/
  apart : runs.Pairwise fun later earlier =>
    earlier.slot < later.slot ∧ earlier.EndedBy later.start
  /-- The first is for the first occurrence. -/
  first : ∀ r ∈ runs.getLast?, ∀ o, occurs o → env.wall began < o → r.slot ≤ o
  /-- An occurrence is passed over only if it had come when the run before it ended: because that
  started late, or was still going on. -/
  passed : runs.IsChain fun later earlier =>
    ∀ o, occurs o → earlier.slot < o → o < later.slot → ∃ e ω, earlier.ended = some (e, ω) ∧
      o ≤ env.wall e

/-- **A cron job, in every run of the scheduler**, runs at most once for an occurrence, one run at a
time, never early, and passes over no occurrence but those that come before a run for an earlier one
has ended. -/
theorem cron_runs {occurs : C → Option Z → Nat → Prop} {name : String} {schedule : C}
    {tz : Option Z} {run : R} (hsound : env.Sound occurs)
    (hrun : (Serving.start now₀ c₀).run env jobs actions = some s)
    (hjob : jobs[i]? = some (.cron name schedule tz run)) :
    CronRuns env (occurs schedule tz) (s.jobs i).began (s.jobs i).runs := by
  have hkept := (inv_run hrun i _ hjob).kept
  have hreached : ∀ r ∈ (s.jobs i).runs, r.slot ≤ env.wall r.start :=
    fun r hr => hkept.reached r hr hsound.steady
  have hlooked : ∀ r ∈ (s.jobs i).runs, ∀ e ω, r.ended = some (e, ω) → r.slot ≤ env.wall e :=
    fun r hr e ω he => le_trans (hreached r hr) (hsound.wall_mono (hkept.ended r hr e ω he).1)
  refine ⟨fun r hr => ?_, ?_, ?_, ?_⟩
  · have hslot := hkept.slot_induction
      (P := fun slot => occurs schedule tz slot ∧ env.wall (s.jobs i).began < slot) ?_ ?_ r hr
    · exact ⟨hslot.1, hslot.2, hreached r hr⟩
    · rintro slot ⟨wait, hwait, rfl⟩
      exact ⟨(hsound.occurrence hwait).1, (hsound.occurrence hwait).2.1⟩
    · rintro r hr ⟨-, hafter⟩ slot ⟨e, ω, wait, he, hwait, rfl⟩
      refine ⟨(hsound.occurrence hwait).1, lt_trans hafter ?_⟩
      exact lt_of_le_of_lt (hlooked r hr e ω he) (hsound.occurrence hwait).2.1
  · refine List.Pairwise.and (hkept.pairwise_slot ?_) hkept.pairwise_ended
    rintro r hr slot ⟨e, ω, wait, he, hwait, rfl⟩
    exact lt_of_le_of_lt (hlooked r hr e ω he) (hsound.occurrence hwait).2.1
  · intro r hr o ho hafter
    obtain ⟨wait, hwait, hslot⟩ := hkept.first r hr
    rw [hslot]
    exact (hsound.occurrence hwait).2.2 o ho hafter
  · refine hkept.chain.imp fun later earlier hrel o ho _ hbefore => ?_
    obtain ⟨e, ω, wait, he, hwait, hslot⟩ := hrel.1
    refine ⟨e, ω, he, Nat.le_of_not_lt fun hafter => ?_⟩
    have := (hsound.occurrence hwait).2.2 o ho hafter
    omega

theorem multiples_sound : multiples.Sound fun gap _ o => gap + 1 ∣ o where
  next gap _ now o := by
    have hbefore : now < (now / (gap + 1) + 1) * (gap + 1) := by
      rw [Nat.mul_comm]
      exact Nat.lt_mul_div_succ now (Nat.succ_pos gap)
    have hleast : ∀ o, gap + 1 ∣ o → now < o → (now / (gap + 1) + 1) * (gap + 1) ≤ o := by
      rintro _ ⟨k, rfl⟩ hk
      rw [Nat.mul_comm (gap + 1) k]
      refine Nat.mul_le_mul_right _ (Nat.succ_le_of_lt ?_)
      exact (Nat.div_lt_iff_lt_mul (Nat.succ_pos gap)).mpr (by rwa [Nat.mul_comm] at hk)
    rw [multiples, Option.some_inj]
    constructor
    · rintro rfl
      exact ⟨Nat.dvd_mul_left _ _, hbefore, hleast⟩
    · rintro ⟨hdvd, hafter, hmin⟩
      exact le_antisymm (hleast o hdvd hafter) (hmin _ (Nat.dvd_mul_left _ _) hbefore)
  steady _ _ := le_refl _

/-- The cron job runs for 60 until 130, so 120 is passed over and 180 comes next. -/
def overrun : List Action :=
  [.poll 1 .timer, .advance 60, .poll 1 .timer, .advance 70, .finish 1 .ok, .advance 50,
    .poll 1 .timer]

theorem overrun_cron_runs :
    ∃ s, (Serving.start 0 false).run multiples twoJobs overrun = some s ∧
      (s.jobs 1).runs = [⟨180, 180, none⟩, ⟨60, 60, some (130, .ok)⟩] ∧
      CronRuns multiples (fun o => 60 ∣ o) (s.jobs 1).began (s.jobs 1).runs := by
  have hruns : ((Serving.start 0 false).run multiples twoJobs overrun).map
      (fun s => (s.jobs 1).runs) = some [⟨180, 180, none⟩, ⟨60, 60, some (130, .ok)⟩] := rfl
  obtain ⟨s, hs, hruns⟩ := Option.map_eq_some_iff.mp hruns
  exact ⟨s, hs, hruns, cron_runs multiples_sound hs rfl⟩

/-- A one-shot runs at most once, and not before its delay is over. -/
theorem timeout_runs {name : String} {delay : Nat} {run : R}
    (hrun : (Serving.start now₀ c₀).run env jobs actions = some s)
    (hjob : jobs[i]? = some (.timeout name delay run)) :
    (s.jobs i).runs.length ≤ 1 ∧ ∀ r ∈ (s.jobs i).runs, (s.jobs i).began + delay ≤ r.start := by
  have hkept := (inv_run hrun i _ hjob).kept
  cases hruns : (s.jobs i).runs with
  | nil => exact ⟨Nat.zero_le _, nofun⟩
  | cons r rest =>
    rw [hruns] at hkept
    cases rest with
    | nil =>
      refine ⟨le_refl _, ?_⟩
      intro r' hr'
      rw [List.mem_singleton] at hr'
      subst hr'
      have hslot : r'.slot = (s.jobs i).began + delay := hkept.first r' rfl
      exact hslot ▸ hkept.reached r' List.mem_cons_self
    | cons r₁ rest => exact absurd (List.isChain_cons_cons.mp hkept.chain).1.1 id

/-! ## How tasks end -/

/-- How far a task is from its end, once it is told to end. -/
def Task.rank : Task → Nat
  | spawned => 3
  | arming _ | running _ => 2
  | selecting _ _ | idle => 1
  | returned | panicked => 0

theorem rank_await (env : Env C Z) (schedule : C) (tz : Option Z) (now : Nat) :
    (env.await schedule tz now).rank = 1 := by
  rcases await_cases env schedule tz now with ⟨wait, -, h⟩ | ⟨-, h⟩ <;> rw [h] <;> rfl

theorem rank_enter (env : Env C Z) (job : Job C Z R) (now : Nat) :
    (env.enter now job).rank < 3 := by
  cases job with
  | interval name period run =>
    rw [Env.enter]
    split
    · exact (by decide : 0 < 3)
    · exact (by decide : 2 < 3)
  | timeout name delay run => exact (by decide : 1 < 3)
  | cron name schedule tz run =>
    rw [Env.enter, rank_await]
    decide

theorem rank_resume (env : Env C Z) (job : Job C Z R) (now next : Nat) :
    (env.resume now next job).rank = 1 := by
  cases job with
  | interval name period run => rfl
  | timeout name delay run => rfl
  | cron name schedule tz run => exact rank_await env schedule tz now

/-- A task comes to its end by returning only from a wait for the token. -/
theorem enter_ne_returned (env : Env C Z) (job : Job C Z R) (now : Nat) :
    env.enter now job ≠ .returned := by
  cases job with
  | interval name period run =>
    rw [Env.enter]
    split <;> exact nofun
  | timeout name delay run => exact nofun
  | cron name schedule tz run =>
    intro h
    have hrank := rank_await env schedule tz now
    rw [show env.await schedule tz now = .returned from h] at hrank
    exact nomatch hrank

/-- A task that has returned was told to. -/
def Told (s : Serving) : Prop := ∀ i, (s.jobs i).task = .returned → s.cancelled = true

theorem poll_returned {js js' : JobState} {now : Nat} {cancelled : Bool} {branch : Branch}
    (h : js.poll env job now cancelled branch = some js') (hreturned : js'.task = .returned) :
    cancelled = true := by
  obtain ⟨task, began, runs⟩ := js
  cases task with
  | selecting slot deadline =>
    cases branch <;>
      simp only [JobState.poll, Option.ite_none_right_eq_some, Option.some_inj] at h <;>
      obtain ⟨hcond, rfl⟩ := h
    · exact hcond
    · exact nomatch hreturned
  | spawned =>
    cases h
    exact absurd hreturned (enter_ne_returned env job now)
  | arming deadline =>
    simp only [JobState.poll, Option.ite_none_right_eq_some, Option.some_inj] at h
    obtain ⟨-, rfl⟩ := h
    exact nomatch hreturned
  | idle =>
    simp only [JobState.poll, Option.ite_none_right_eq_some, Option.some_inj] at h
    exact h.1
  | running next => exact nomatch h
  | returned => exact nomatch h
  | panicked => exact nomatch h

theorem finish_ne_returned {js js' : JobState} {now : Nat} {outcome : Outcome}
    (h : js.finish env job now outcome = some js') : js'.task ≠ .returned := by
  obtain ⟨task, began, runs⟩ := js
  cases task with
  | running next =>
    cases h
    by_cases hpanic : outcome = .panic
    · simp [hpanic]
    · intro hreturned
      have hrank := rank_resume env job now next
      rw [show env.resume now next job = .returned by simpa [hpanic] using hreturned] at hrank
      exact nomatch hrank
  | _ => exact nomatch h

theorem told_step (h : Told s) (hstep : s.step env jobs a = some s') : Told s' := by
  rcases step_cases hstep with ⟨δ, -, rfl⟩ | ⟨-, rfl⟩ | ⟨i, branch, job, js, -, hjob, hjs, rfl⟩ |
    ⟨i, outcome, job, js, -, hjob, hjs, rfl⟩
  · exact h
  · exact fun _ _ => rfl
  · intro k hk
    by_cases hki : k = i
    · subst hki
      exact poll_returned hjs (by simpa using hk)
    · exact h k (by simpa [Function.update_of_ne hki] using hk)
  · intro k hk
    by_cases hki : k = i
    · subst hki
      exact absurd (by simpa using hk) (finish_ne_returned hjs)
    · exact h k (by simpa [Function.update_of_ne hki] using hk)

theorem told_run (hrun : (Serving.start now₀ c₀).run env jobs actions = some s) : Told s := by
  have hstart : Told (Serving.start now₀ c₀) := fun i h => by cases h
  exact foldlM_invariant (fun _ _ _ => told_step) actions hstart hrun

/-! ## Failures -/

/-- What a run has logged. -/
def Logged.ofRun (i : Nat) (name : String) (r : TimedRun Outcome) : List Logged :=
  r.ended.elim [] fun ended => errorOf i name ended.2

/-- The log of each task is what its runs have logged. -/
def LogInv (jobs : List (Job C Z R)) (s : Serving) : Prop :=
  ∀ i job, jobs[i]? = some job →
    s.log.filter (fun line => line.task = i) = (s.jobs i).runs.flatMap (Logged.ofRun i job.name)

theorem poll_runs {js js' : JobState} {now : Nat} {cancelled : Bool} {branch : Branch}
    (h : js.poll env job now cancelled branch = some js') :
    js'.runs = js.runs ∨ ∃ slot, js'.runs = ⟨slot, now, none⟩ :: js.runs := by
  obtain ⟨task, began, runs⟩ := js
  cases task with
  | selecting slot deadline =>
    cases branch <;>
      simp only [JobState.poll, Option.ite_none_right_eq_some, Option.some_inj] at h <;>
      obtain ⟨-, rfl⟩ := h
    · exact .inl rfl
    · exact .inr ⟨slot, rfl⟩
  | spawned =>
    cases h
    exact .inl rfl
  | arming deadline =>
    simp only [JobState.poll, Option.ite_none_right_eq_some, Option.some_inj] at h
    obtain ⟨-, rfl⟩ := h
    exact .inl rfl
  | idle =>
    simp only [JobState.poll, Option.ite_none_right_eq_some, Option.some_inj] at h
    obtain ⟨-, rfl⟩ := h
    exact .inl rfl
  | running next => exact nomatch h
  | returned => exact nomatch h
  | panicked => exact nomatch h

theorem finish_runs {js js' : JobState} {now : Nat} {outcome : Outcome}
    (hinv : JobInv env job now js) (h : js.finish env job now outcome = some js') :
    ∃ slot start rest, js.runs = ⟨slot, start, none⟩ :: rest ∧
      js'.runs = ⟨slot, start, some (now, outcome)⟩ :: rest := by
  obtain ⟨task, began, runs⟩ := js
  cases task with
  | running next =>
    obtain ⟨slot, start, rest, hruns, -⟩ := hinv.task
    cases (hruns : runs = _)
    cases h
    exact ⟨slot, start, rest, rfl, rfl⟩
  | _ => exact nomatch h

theorem filter_errorOf (i k : Nat) (name : String) (outcome : Outcome) :
    (errorOf i name outcome).filter (fun line => line.task = k) =
      if i = k then errorOf i name outcome else [] := by
  cases outcome <;> by_cases h : i = k <;> simp [errorOf, h]

theorem logInv_step (hinv : Inv env jobs s) (h : LogInv jobs s)
    (hstep : s.step env jobs a = some s') : LogInv jobs s' := by
  rcases step_cases hstep with ⟨δ, -, rfl⟩ | ⟨-, rfl⟩ | ⟨i, branch, job, js, -, hjob, hjs, rfl⟩ |
    ⟨i, outcome, job, js, -, hjob, hjs, rfl⟩
  · exact h
  · exact h
  · intro k job' hjob'
    by_cases hk : k = i
    · subst hk
      simp only [Function.update_self]
      rw [h k job' hjob']
      -- A run that starts has logged nothing yet.
      rcases poll_runs hjs with hruns | ⟨slot, hruns⟩
      · rw [hruns]
      · rw [hruns, List.flatMap_cons]
        rfl
    · simpa [Function.update_of_ne hk] using h k job' hjob'
  · intro k job' hjob'
    simp only [List.filter_append, filter_errorOf]
    by_cases hk : k = i
    · subst hk
      cases hjob.symm.trans hjob'
      obtain ⟨slot, start, rest, hopen, hclosed⟩ := finish_runs (hinv k job hjob) hjs
      rw [if_pos rfl, h k job hjob, hopen, Function.update_self, hclosed, List.flatMap_cons,
        List.flatMap_cons]
      rfl
    · rw [if_neg (Ne.symm hk), Function.update_of_ne hk, h k job' hjob']
      rfl

/-- The timer never refuses the period of a job that `#[cron_job]` has accepted. -/
theorem not_refused_of_decorated {parsers : Parsers C Z} {fromStr : String → Except String Unit}
    {metas : List CronJob.MetaNameValue} {trigger : CronJob.Trigger} {consts : String → String}
    {name : String} {run : R} (hparse : CronJob.Trigger.parse fromStr metas = .ok trigger)
    (hresolve : resolve parsers ⟨name, Trigger.ofMacro consts trigger, run⟩ = .ok job) :
    ¬ job.Refused := by
  rintro ⟨name', run', rfl⟩
  rcases trigger with ms | ms | ⟨_ | _, tz⟩
  · have hms := (CronJob.parse_period hparse (.inl rfl)).1
    simp only [resolve, Trigger.ofMacro, Except.ok.injEq, Job.interval.injEq] at hresolve
    omega
  all_goals
    simp only [resolve, Trigger.ofMacro] at hresolve
    repeat' split at hresolve
    all_goals exact nomatch hresolve

/-- While a task has not panicked, none of its runs has. -/
theorem calm_of_ne_panicked {js : JobState} {now : Nat} (h : JobInv env job now js)
    (hne : js.task ≠ .panicked) : Calm js.runs := by
  obtain ⟨task, began, runs⟩ := js
  have htask := h.task
  cases task with
  | spawned =>
    cases (htask : runs = [])
    exact nofun
  | arming deadline =>
    cases (htask.1 : runs = [])
    exact nofun
  | selecting slot deadline => exact htask.2.1
  | running next =>
    obtain ⟨slot, start, rest, hruns, -, hcalm, -⟩ := htask
    cases (hruns : runs = _)
    exact List.forall_mem_cons.mpr ⟨nofun, hcalm⟩
  | idle => exact htask.2.1
  | returned => exact htask.2
  | panicked => exact absurd rfl hne

/-- **Failures.** In every run of the scheduler the log of a job holds the errors of its runs, each
once and in their order, and nothing else. A failed run does not end its task: that returns only
after the shutdown is signalled, stops running only when nothing is left to run, and panics only
with its own latest run, or because its timer refuses a period of zero; no other run of it has
panicked. -/
theorem failed_runs (hrun : (Serving.start now₀ c₀).run env jobs actions = some s)
    (hjob : jobs[i]? = some job) :
    s.log.filter (fun line => line.task = i) =
      (s.jobs i).runs.flatMap (Logged.ofRun i job.name) ∧
    ((s.jobs i).task = .returned → s.cancelled = true) ∧
    ((s.jobs i).task = .idle → job.Exhausted env s.now (s.jobs i).runs) ∧
    ((s.jobs i).task = .panicked ↔ job.Refused ∧ (s.jobs i).task ≠ .spawned ∨
      ∃ r ∈ (s.jobs i).runs, ∃ e, r.ended = some (e, .panic)) ∧
    ∀ r ∈ (s.jobs i).runs.tail, ∀ e, r.ended ≠ some (e, .panic) := by
  have hboth : Inv env jobs s ∧ LogInv jobs s :=
    foldlM_invariant (P := fun s => Inv env jobs s ∧ LogInv jobs s)
      (fun _ _ _ h hstep => ⟨inv_step h.1 hstep, logInv_step h.1 h.2 hstep⟩) actions
      ⟨inv_start, fun _ _ _ => rfl⟩ hrun
  have hthis := hboth.1 i job hjob
  refine ⟨hboth.2 i job hjob, told_run hrun i, fun hidle => ?_, ?_⟩
  · have htask := hthis.task
    rw [hidle] at htask
    exact htask.2.2
  by_cases hpanicked : (s.jobs i).task = .panicked
  · have htask := hthis.task
    rw [hpanicked] at htask ⊢
    obtain ⟨-, hbad | ⟨r, rest, e, hruns, he, hcalm⟩⟩ := htask
    · rw [(hthis.refused hbad).1]
      exact ⟨⟨fun _ => .inl ⟨hbad, nofun⟩, fun _ => rfl⟩, nofun⟩
    · rw [hruns]
      exact ⟨⟨fun _ => .inr ⟨r, List.mem_cons_self, e, he⟩, fun _ => rfl⟩, hcalm⟩
  · have hcalm := calm_of_ne_panicked hthis hpanicked
    refine ⟨⟨fun h => absurd h hpanicked, ?_⟩, fun r hr => hcalm r (List.mem_of_mem_tail hr)⟩
    rintro (⟨hbad, hpolled⟩ | ⟨r, hr, e, he⟩)
    · exact ((hthis.refused hbad).2.resolve_left hpolled)
    · exact absurd he (hcalm r hr e)

/-- The first run of the interval has failed, and its task goes on with the second. -/
theorem late_failures : ∃ s, (Serving.start 0 false).run multiples twoJobs late = some s ∧
    s.log.filter (fun line => line.task = 0) =
      (s.jobs 0).runs.flatMap (Logged.ofRun 0 "Tick") ∧ s.log = [⟨0, "Tick", "boom"⟩] ∧
    (s.jobs 0).task = .running 40000000 := by
  have hseen : ((Serving.start 0 false).run multiples twoJobs late).map
      (fun s => (s.log, (s.jobs 0).task)) = some ([⟨0, "Tick", "boom"⟩], .running 40000000) := by
    decide +kernel
  obtain ⟨s, hs, hseen⟩ := Option.map_eq_some_iff.mp hseen
  obtain ⟨hlog, htask⟩ := Prod.mk.inj hseen
  have hjob : twoJobs[0]? = some (.interval "Tick" 10000000 ()) := rfl
  exact ⟨s, hs, (failed_runs hs hjob).1, hlog, htask⟩

/-! ## Shutting down -/

/-- An action that a task takes by itself, once it is told to end: its run ends in the given way,
or it is polled and sees the token. -/
def Winds (outcome : Nat → Outcome) (a : Action) : Prop :=
  ∃ i, a = .poll i .cancelled ∨ a = .finish i (outcome i)

/-- **Once told to end, a task that has not ended can go on.** -/
theorem exists_winding_step (outcome : Nat → Outcome) (hinv : Inv env jobs s)
    (hcancelled : s.cancelled = true) (hjob : jobs[i]? = some job)
    (hrank : (s.jobs i).task.rank ≠ 0) :
    ∃ a s', Winds outcome a ∧ s.step env jobs a = some s' ∧ s'.cancelled = true ∧
      (s'.jobs i).task.rank < (s.jobs i).task.rank ∧ ∀ k, k ≠ i → s'.jobs k = s.jobs k := by
  have htask := (hinv i job hjob).task
  have hbegan := (hinv i job hjob).began
  have hpolled : ∀ {js : JobState},
      (s.jobs i).poll env job s.now s.cancelled .cancelled = some js →
      js.task.rank < (s.jobs i).task.rank →
      ∃ a s', Winds outcome a ∧ s.step env jobs a = some s' ∧ s'.cancelled = true ∧
        (s'.jobs i).task.rank < (s.jobs i).task.rank ∧ ∀ k, k ≠ i → s'.jobs k = s.jobs k := by
    intro js hjs hlt
    refine ⟨.poll i .cancelled, { s with jobs := Function.update s.jobs i js }, ⟨i, .inl rfl⟩, ?_,
      hcancelled, ?_, fun k hk => Function.update_of_ne hk _ _⟩
    · simp [Serving.step, hjob, hjs]
    · simpa using hlt
  cases hcase : s.jobs i with
  | mk task began runs =>
  rw [hcase] at htask hbegan hrank hpolled
  cases task with
  | spawned => exact hpolled rfl (rank_enter env job s.now)
  | arming deadline =>
    obtain ⟨-, rfl, -⟩ := htask
    have hpoll : (JobState.mk (.arming deadline) deadline runs).poll env job s.now s.cancelled
        .cancelled = some ⟨.selecting (env.rearm deadline s.now job) (env.rearm deadline s.now job),
          deadline, runs⟩ := if_pos hbegan
    exact hpolled hpoll Nat.one_lt_two
  | selecting slot deadline =>
    have hpoll : (JobState.mk (.selecting slot deadline) began runs).poll env job s.now s.cancelled
        .cancelled = some ⟨.returned, began, runs⟩ := if_pos hcancelled
    exact hpolled hpoll Nat.zero_lt_one
  | idle =>
    have hpoll : (JobState.mk .idle began runs).poll env job s.now s.cancelled .cancelled =
        some ⟨.returned, began, runs⟩ := if_pos hcancelled
    exact hpolled hpoll Nat.zero_lt_one
  | running next =>
    have hfinish : (s.jobs i).finish env job s.now (outcome i) =
        some ⟨if outcome i = .panic then .panicked else env.resume s.now next job, began,
          Plan.finish s.now (outcome i) runs⟩ := by
      rw [hcase]
      rfl
    refine ⟨.finish i (outcome i), { s with
        jobs := Function.update s.jobs i ⟨if outcome i = .panic then .panicked
          else env.resume s.now next job, began, Plan.finish s.now (outcome i) runs⟩
        log := errorOf i job.name (outcome i) ++ s.log }, ⟨i, .inr rfl⟩, ?_, hcancelled, ?_,
      fun k hk => Function.update_of_ne hk _ _⟩
    · simp [Serving.step, hjob, hfinish]
    · simp only [Function.update_self]
      split
      · exact Nat.zero_lt_two
      · rw [rank_resume]
        exact Nat.one_lt_two
  | returned => exact absurd rfl hrank
  | panicked => exact absurd rfl hrank

theorem ended_iff_rank (task : Task) : task.rank = 0 ↔ task = .returned ∨ task = .panicked := by
  cases task <;> simp [Task.rank]

/-- One task winds down, whatever the others do. -/
theorem exists_winding (outcome : Nat → Outcome) (n : Nat) (hinv : Inv env jobs s)
    (hcancelled : s.cancelled = true) (hjob : jobs[i]? = some job)
    (hn : (s.jobs i).task.rank = n) :
    ∃ more s', (∀ a ∈ more, Winds outcome a) ∧ s.run env jobs more = some s' ∧ Inv env jobs s' ∧
      s'.cancelled = true ∧ (s'.jobs i).task.rank = 0 ∧ ∀ k, k ≠ i → s'.jobs k = s.jobs k := by
  induction n using Nat.strong_induction_on generalizing s with
  | _ n ih =>
    by_cases hrank : (s.jobs i).task.rank = 0
    · exact ⟨[], s, nofun, rfl, hinv, hcancelled, hrank, fun _ _ => rfl⟩
    · obtain ⟨a, s₁, ha, hstep, hcancelled₁, hlt, hsame⟩ :=
        exists_winding_step outcome hinv hcancelled hjob hrank
      obtain ⟨more, s', hmore, hrun, hinv', hcancelled', hended, hsame'⟩ :=
        ih _ (hn ▸ hlt) (inv_step hinv hstep) hcancelled₁ rfl
      refine ⟨a :: more, s', List.forall_mem_cons.mpr ⟨ha, hmore⟩, ?_, hinv', hcancelled', hended,
        fun k hk => (hsame' k hk).trans (hsame k hk)⟩
      rw [Serving.run, List.foldlM_cons, hstep]
      exact hrun

/-- All tasks wind down, one after the other. -/
theorem exists_winding_all (outcome : Nat → Outcome) (n : Nat) (hn : n ≤ jobs.length)
    (hinv : Inv env jobs s) (hcancelled : s.cancelled = true) :
    ∃ more s', (∀ a ∈ more, Winds outcome a) ∧ s.run env jobs more = some s' ∧ Inv env jobs s' ∧
      s'.cancelled = true ∧ ∀ i < n, (s'.jobs i).task.rank = 0 := by
  induction n with
  | zero => exact ⟨[], s, nofun, rfl, hinv, hcancelled, nofun⟩
  | succ n ih =>
    obtain ⟨more, s₁, hmore, hrun, hinv₁, hcancelled₁, hended⟩ := ih (Nat.le_of_succ_le hn)
    obtain ⟨last, s', hlast, hrun', hinv', hcancelled', hended', hsame⟩ :=
      exists_winding outcome _ hinv₁ hcancelled₁ (List.getElem?_eq_getElem hn) rfl
    refine ⟨more ++ last, s', List.forall_mem_append.mpr ⟨hmore, hlast⟩, ?_, hinv', hcancelled', ?_⟩
    · rw [Serving.run, List.foldlM_append]
      exact Option.bind_eq_some_iff.mpr ⟨s₁, hrun, hrun'⟩
    · intro i hi
      by_cases hin : i = n
      · exact hin ▸ hended'
      · rw [hsame i hin]
        exact hended i (by omega)

theorem settled_of_rank {js : JobState} {now : Nat} (h : JobInv env job now js)
    (hrank : js.task.rank = 0) : Plan.Settled js.runs := by
  obtain ⟨task, began, runs⟩ := js
  have htask := h.task
  rcases (ended_iff_rank task).mp hrank with rfl | rfl
  · exact htask.1
  · exact htask.1

/-- **Shutting down.** In every run of the scheduler a task has returned only if the shutdown was
signalled, and a task that has ended left no run behind that is going on; so does `serve`. Once the
shutdown is signalled, the tasks can end by themselves, however the runs end that are going on, and
then `serve` returns. -/
theorem tasks_shutdown (hrun : (Serving.start now₀ c₀).run env jobs actions = some s) :
    (∀ i < jobs.length, (s.jobs i).task = .returned →
      s.cancelled = true ∧ Plan.Settled (s.jobs i).runs) ∧
    (s.Finished jobs → ∀ i < jobs.length, Plan.Settled (s.jobs i).runs) ∧
    (s.cancelled = true → ∀ outcome : Nat → Outcome, ∃ more s', (∀ a ∈ more, Winds outcome a) ∧
      s.run env jobs more = some s' ∧ s'.Finished jobs) := by
  have hinv := inv_run hrun
  refine ⟨fun i hi hreturned => ⟨told_run hrun i hreturned, ?_⟩, fun hfinished i hi => ?_,
    fun hcancelled outcome => ?_⟩
  · exact settled_of_rank (hinv i _ (List.getElem?_eq_getElem hi))
      ((ended_iff_rank _).mpr (.inl hreturned))
  · have hne : jobs ≠ [] := List.ne_nil_of_length_pos (Nat.zero_lt_of_lt hi)
    rw [Serving.Finished, if_neg hne] at hfinished
    exact settled_of_rank (hinv i _ (List.getElem?_eq_getElem hi))
      ((ended_iff_rank _).mpr (hfinished i hi))
  · obtain ⟨more, s', hmore, hrun', -, hcancelled', hended⟩ :=
      exists_winding_all outcome jobs.length (le_refl _) hinv hcancelled
    refine ⟨more, s', hmore, hrun', ?_⟩
    rw [Serving.Finished]
    split
    · exact hcancelled'
    · exact fun i hi => (ended_iff_rank _).mp (hended i hi)

/-- The shutdown is signalled while the interval runs. -/
theorem late_shutdown : ∃ s, (Serving.start 0 false).run multiples twoJobs (late ++ [.cancel]) =
    some s ∧ ∃ more s', s.run multiples twoJobs more = some s' ∧ s'.Finished twoJobs := by
  have hsome : ((Serving.start 0 false).run multiples twoJobs (late ++ [.cancel])).map
      Serving.cancelled = some true := rfl
  obtain ⟨s, hs, hcancelled⟩ := Option.map_eq_some_iff.mp hsome
  obtain ⟨more, s', -, hrun, hfinished⟩ := (tasks_shutdown hs).2.2 hcancelled fun _ => .ok
  exact ⟨s, hs, more, s', hrun, hfinished⟩

end Serve

end Nestrs.Schedule
