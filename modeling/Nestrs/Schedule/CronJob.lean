import Nestrs.Lib.Except
import Nestrs.Lib.Numeral
import Mathlib.Data.List.Basic

/-!
# The arguments of `#[cron_job]`

Model of `crates/nestrs-schedule-macros/src/cron_job.rs`: the arguments choose the trigger of a job,
and are read when the program is compiled. An interval or a delay is a text such as `500ms` or `1h`.
A cron expression is a literal, which is checked at once, or a path, which is checked at boot.

* `periodMillis` strips a unit, reads the number in front of it, and multiplies. The units are
  tried in an order, since `500ms` also ends with `s`.
* `parse` goes through the arguments, then decides on the trigger. An argument may be repeated: the
  last one counts, though each has to be of the right kind.

Results:
* **`periodMillis_spec`**: which texts are durations, and what each of the others is refused with;
* **`parse_eq_ok_iff`**: which lists of arguments are accepted, and for what trigger;
* `parse_period`: an accepted interval or delay is positive and fits 64 bits.
-/

namespace Nestrs.Schedule.CronJob

open Nestrs.Lib

/-! ## Durations -/

/-- The units of a duration. -/
inductive TimeUnit where
  | millis
  | seconds
  | minutes
  | hours
deriving DecidableEq, Repr

namespace TimeUnit

def suffix : TimeUnit → List Char
  | millis => ['m', 's']
  | seconds => ['s']
  | minutes => ['m']
  | hours => ['h']

/-- The milliseconds of one unit. -/
def multiplier : TimeUnit → Nat
  | millis => 1
  | seconds => 1000
  | minutes => 60000
  | hours => 3600000

end TimeUnit

def badDuration : String :=
  "duration must be a positive number with an `ms`, `s`, `m`, or `h` suffix " ++
    "(e.g. \"500ms\", \"30s\", \"5m\", \"1h\")"

def zeroDuration : String := "duration must be greater than zero"

def durationOverflow : String := "duration overflows u64 milliseconds"

/-- The number and the unit of a trimmed text: the first suffix that it has. -/
def splitUnit (s : List Char) : Option (List Char × TimeUnit) :=
  match s.dropSuffix? TimeUnit.millis.suffix with
  | some number => some (number, .millis)
  | none => match s.dropSuffix? TimeUnit.seconds.suffix with
    | some number => some (number, .seconds)
    | none => match s.dropSuffix? TimeUnit.minutes.suffix with
      | some number => some (number, .minutes)
      | none => match s.dropSuffix? TimeUnit.hours.suffix with
        | some number => some (number, .hours)
        | none => none

/-- `period_millis`. -/
def periodMillis (raw : List Char) : Except String Nat :=
  match splitUnit (trim raw) with
  | none => .error badDuration
  | some (number, unit) =>
    match parseUnsigned (2 ^ 64) (trim number) with
    | none => .error badDuration
    | some value =>
      if value = 0 then .error zeroDuration
      else if value * unit.multiplier < 2 ^ 64 then .ok (value * unit.multiplier)
      else .error durationOverflow

/-- The text is a number of units: a numeral, then the suffix of the unit, with blanks around them
and between them. -/
def Reads (raw : List Char) (unit : TimeUnit) (n : Nat) : Prop :=
  ∃ u number v w, raw = u ++ (number ++ v ++ unit.suffix) ++ w ∧ Numeral number n ∧
    (∀ c ∈ u, isWhitespace c = true) ∧ (∀ c ∈ v, isWhitespace c = true) ∧
    ∀ c ∈ w, isWhitespace c = true

section Duration

variable {raw s number t v : List Char} {unit : TimeUnit} {n : Nat}

theorem dropSuffix_eq_some : s.dropSuffix? t = some number ↔ s = number ++ t := by
  rw [List.dropSuffix?_eq_some_iff]
  exact ⟨fun ⟨t', h, ht⟩ => eq_of_beq ht ▸ h, fun h => ⟨t, h, beq_self_eq_true t⟩⟩

/-- What is split off is a suffix of its unit. -/
theorem eq_append_of_splitUnit (h : splitUnit s = some (number, unit)) :
    s = number ++ unit.suffix := by
  unfold splitUnit at h
  repeat' split at h
  all_goals
    first
    | cases h; exact dropSuffix_eq_some.mp (by assumption)
    | exact absurd h nofun

theorem not_blank_of_numeral {c : Char} (hnumber : Numeral number n) (hc : c ∈ number) :
    isWhitespace c = false := by
  rcases hnumber.mem hc with hdigit | rfl
  · obtain ⟨hlow, hhigh⟩ := Char.isDigit_iff_toNat.mp hdigit
    have h0 : '0'.toNat = 48 := rfl
    have h9 : '9'.toNat = 57 := rfl
    simp only [isWhitespace, Bool.or_eq_false_iff, Bool.and_eq_false_iff, decide_eq_false_iff_not,
      List.contains_eq_mem, List.mem_cons, List.not_mem_nil, or_false]
    omega
  · decide

/-- A number holds no letter of a unit, with blanks after it or not. -/
theorem notMem_of_numeral (hnumber : Numeral number n) (hv : ∀ c ∈ v, isWhitespace c = true)
    {c : Char} (hdigit : c.isDigit = false) (hplus : c ≠ '+') (hblank : isWhitespace c = false) :
    c ∉ number ++ v := by
  intro hc
  rcases List.mem_append.mp hc with hc | hc
  · rcases hnumber.mem hc with h | h
    · exact absurd h (by simp [hdigit])
    · exact hplus h
  · exact absurd (hv c hc) (by simp [hblank])

theorem dropSuffix_eq_none_of_last {other : TimeUnit}
    (h : unit.suffix.getLast? ≠ other.suffix.getLast?) :
    (t ++ unit.suffix).dropSuffix? other.suffix = none := by
  rw [Option.eq_none_iff_forall_ne_some]
  intro p hp
  have hlast := congrArg List.getLast? (dropSuffix_eq_some.mp hp)
  rw [List.getLast?_append, List.getLast?_append] at hlast
  cases unit <;> cases other <;> simp_all [TimeUnit.suffix]

/-- **The order of the units resolves the overlap**: a text without the letters that could make it
one is split at the suffix behind it. -/
theorem splitUnit_append (hm : 'm' ∉ t) : splitUnit (t ++ unit.suffix) = some (t, unit) := by
  have hself : (t ++ unit.suffix).dropSuffix? unit.suffix = some t := dropSuffix_eq_some.mpr rfl
  unfold splitUnit
  cases unit with
  | millis => rw [hself]
  | seconds =>
    have hms : (t ++ TimeUnit.seconds.suffix).dropSuffix? TimeUnit.millis.suffix = none := by
      rw [Option.eq_none_iff_forall_ne_some]
      intro p hp
      have h : t ++ ['s'] = (p ++ ['m']) ++ ['s'] := by
        simpa [TimeUnit.suffix] using dropSuffix_eq_some.mp hp
      rw [List.append_cancel_right h] at hm
      exact hm (by simp)
    rw [hms, hself]
  | minutes =>
    rw [dropSuffix_eq_none_of_last (by decide), dropSuffix_eq_none_of_last (by decide), hself]
  | hours =>
    rw [dropSuffix_eq_none_of_last (by decide), dropSuffix_eq_none_of_last (by decide),
      dropSuffix_eq_none_of_last (by decide), hself]

/-- A number of units, trimmed, is the numeral, the blanks behind it and the suffix. -/
theorem trim_of_reads {u w : List Char} (hnumber : Numeral number n)
    (hu : ∀ c ∈ u, isWhitespace c = true) (hw : ∀ c ∈ w, isWhitespace c = true) :
    trim (u ++ (number ++ v ++ unit.suffix) ++ w) = number ++ v ++ unit.suffix := by
  rw [trim, trimBlanks_eq_iff]
  refine ⟨⟨?_, ?_⟩, u, w, rfl, hu, hw⟩
  · intro c hc
    have hmem : c ∈ number := by
      rw [List.append_assoc, List.head?_append_of_ne_nil _ hnumber.ne_nil] at hc
      exact List.mem_of_mem_head? hc
    exact not_blank_of_numeral hnumber hmem
  · intro c hc
    rw [List.getLast?_append] at hc
    cases unit <;> simp [TimeUnit.suffix] at hc <;> subst hc <;> decide

theorem trim_number (hnumber : Numeral number n) (hv : ∀ c ∈ v, isWhitespace c = true) :
    trim (number ++ v) = number := by
  rw [trim, trimBlanks_eq_iff]
  refine ⟨⟨fun c hc => ?_, fun c hc => ?_⟩, [], v, rfl, nofun, hv⟩
  · exact not_blank_of_numeral hnumber (List.mem_of_mem_head? hc)
  · exact not_blank_of_numeral hnumber (List.mem_of_mem_getLast? hc)

/-- **What the two strippings and the number reader accept.** -/
theorem reads_iff : Reads raw unit n ∧ n < 2 ^ 64 ↔
    ∃ number, splitUnit (trim raw) = some (number, unit) ∧
      parseUnsigned (2 ^ 64) (trim number) = some n := by
  constructor
  · rintro ⟨⟨u, number, v, w, rfl, hnumber, hu, hv, hw⟩, hn⟩
    refine ⟨number ++ v, ?_, ?_⟩
    · rw [trim_of_reads hnumber hu hw,
        splitUnit_append (notMem_of_numeral hnumber hv (by decide) (by decide) (by decide))]
    · rw [trim_number hnumber hv]
      exact (parseUnsigned_eq_some (by decide)).mpr ⟨hnumber, hn⟩
  · rintro ⟨t, hsplit, hparse⟩
    obtain ⟨hnumber, hn⟩ := (parseUnsigned_eq_some (by decide)).mp hparse
    obtain ⟨-, u, w, hraw, hu, hw⟩ := trimBlanks_eq_iff.mp (rfl : trimBlanks isWhitespace raw = _)
    obtain ⟨-, u', v, ht, hu', hv⟩ := trimBlanks_eq_iff.mp (rfl : trimBlanks isWhitespace t = _)
    have hsuffix : trimBlanks isWhitespace raw = t ++ unit.suffix := eq_append_of_splitUnit hsplit
    refine ⟨⟨u ++ u', trim t, v, w, ?_, hnumber, ?_, hv, hw⟩, hn⟩
    · calc raw = u ++ trimBlanks isWhitespace raw ++ w := hraw
        _ = u ++ (t ++ unit.suffix) ++ w := by rw [hsuffix]
        _ = u ++ (u' ++ trim t ++ v ++ unit.suffix) ++ w := by rw [trim, ← ht]
        _ = u ++ u' ++ (trim t ++ v ++ unit.suffix) ++ w := by simp only [List.append_assoc]
    · intro c hc
      exact (List.mem_append.mp hc).elim (hu c) (hu' c)

theorem Reads.unique {unit' : TimeUnit} {n' : Nat} (h : Reads raw unit n)
    (h' : Reads raw unit' n') : unit = unit' ∧ n = n' := by
  obtain ⟨u, number, v, w, hraw, hnumber, hu, hv, hw⟩ := h
  obtain ⟨u', number', v', w', hraw', hnumber', hu', hv', hw'⟩ := h'
  have hsplit : splitUnit (trim raw) = some (number ++ v, unit) := by
    rw [hraw, trim_of_reads hnumber hu hw,
      splitUnit_append (notMem_of_numeral hnumber hv (by decide) (by decide) (by decide))]
  rw [hraw', trim_of_reads hnumber' hu' hw',
    splitUnit_append (notMem_of_numeral hnumber' hv' (by decide) (by decide) (by decide)),
    Option.some_inj, Prod.mk.injEq] at hsplit
  refine ⟨hsplit.2.symm, ?_⟩
  have hsame : number = number' := by
    rw [← trim_number hnumber hv, ← hsplit.1, trim_number hnumber' hv']
  exact hnumber.value_unique (hsame ▸ hnumber')

/-- **Which texts are durations.** A text is read as at most one number of one unit. If it is, and
the number fits 64 bits, it is refused when it is zero or when its milliseconds do not fit;
otherwise its milliseconds are the duration. Any other text is refused as malformed. -/
theorem periodMillis_spec (raw : List Char) :
    (∀ unit n unit' n', Reads raw unit n → Reads raw unit' n' → unit = unit' ∧ n = n') ∧
    (∀ unit n, Reads raw unit n → n < 2 ^ 64 →
      periodMillis raw =
        if n = 0 then .error zeroDuration
        else if n * unit.multiplier < 2 ^ 64 then .ok (n * unit.multiplier)
        else .error durationOverflow) ∧
    ((∀ unit n, Reads raw unit n → 2 ^ 64 ≤ n) → periodMillis raw = .error badDuration) := by
  refine ⟨fun _ _ _ _ => Reads.unique, fun unit n h hn => ?_, fun h => ?_⟩
  · obtain ⟨number, hsplit, hparse⟩ := reads_iff.mp ⟨h, hn⟩
    simp only [periodMillis, hsplit, hparse]
  · unfold periodMillis
    split
    · rfl
    · rename_i number unit hsplit
      split
      · rfl
      · rename_i value hparse
        obtain ⟨hreads, hlt⟩ := reads_iff.mpr ⟨number, hsplit, hparse⟩
        exact absurd (h unit value hreads) (Nat.not_le.mpr hlt)

/-- An accepted duration is positive, and its milliseconds fit 64 bits. -/
theorem periodMillis_pos {ms : Nat} (h : periodMillis raw = .ok ms) : 0 < ms ∧ ms < 2 ^ 64 := by
  unfold periodMillis at h
  split at h
  · exact nomatch h
  · rename_i unit _
    split at h
    · exact nomatch h
    · rename_i value _
      split at h
      · exact nomatch h
      · rename_i hvalue
        split at h
        · rename_i hfits
          cases h
          have hunit : 0 < unit.multiplier := by cases unit <;> decide
          exact ⟨Nat.mul_pos (Nat.pos_of_ne_zero hvalue) hunit, hfits⟩
        · exact nomatch h

example : periodMillis " 1500 ms ".toList = .ok 1500 := by decide +kernel

end Duration

/-! ## The arguments -/

/-- `syn::Expr`: a string literal, or anything else. -/
inductive Expr where
  | str (lit : String)
  | other (tokens : String)
deriving DecidableEq, Repr

/-- `MetaNameValue`: the path, if it is one identifier, and the value. -/
structure MetaNameValue where
  ident : Option String
  value : Expr
deriving DecidableEq, Repr

/-- `Trigger` of the macro. -/
inductive Trigger where
  | interval (ms : Nat)
  | timeout (ms : Nat)
  | cron (expr : Expr) (tz : Option String)
deriving DecidableEq, Repr

/-- The variables of the loop of `Trigger::parse`. -/
structure Args where
  every : Option String
  after : Option String
  cron : Option Expr
  tz : Option String
deriving DecidableEq, Repr

def noTrigger : String :=
  "#[cron_job] needs one trigger: `every = \"30s\"` (interval), " ++
    "`cron = \"...\"` (cron expression), or `after = \"10s\"` (one-shot)"

def manyTriggers : String :=
  "#[cron_job] takes exactly one of `every`, `cron`, or `after` — they are mutually exclusive"

def strayTz : String := "#[cron_job] `tz` is only valid alongside `cron`"

def unknownArgument (other : String) : String :=
  "unknown #[cron_job] argument `" ++ other ++ "`; expected `every`, `cron`, `after`, or `tz`"

/-- `as_str_lit`. -/
def asStrLit (value : Expr) (key : String) : Except String String :=
  match value with
  | .str lit => .ok lit
  | .other _ =>
    .error ("#[cron_job] `" ++ key ++ "` must be a string literal, e.g. `" ++ key ++ " = \"...\"`")

/-- The body of the loop of `Trigger::parse`. -/
def Args.read (args : Args) (arg : MetaNameValue) : Except String Args :=
  let key := arg.ident.getD ""
  if key = "every" then (asStrLit arg.value "every").map fun lit => { args with every := some lit }
  else if key = "after" then
    (asStrLit arg.value "after").map fun lit => { args with after := some lit }
  else if key = "tz" then (asStrLit arg.value "tz").map fun lit => { args with tz := some lit }
  else if key = "cron" then .ok { args with cron := some arg.value }
  else .error (unknownArgument key)

/-- The checks after the loop of `Trigger::parse`. `fromStr` is the parser of `croner`. -/
def Args.trigger (fromStr : String → Except String Unit) (args : Args) : Except String Trigger :=
  let chosen := args.every.isSome.toNat + args.after.isSome.toNat + args.cron.isSome.toNat
  if chosen = 0 then .error noTrigger
  else if 1 < chosen then .error manyTriggers
  else if args.tz.isSome && args.cron.isNone then .error strayTz
  else match args.every, args.after, args.cron with
    | some lit, _, _ => (periodMillis lit.toList).map .interval
    | none, some lit, _ => (periodMillis lit.toList).map .timeout
    | none, none, some (.str lit) =>
      match fromStr lit with
      | .error e => .error ("invalid cron expression: " ++ e)
      | .ok () => .ok (.cron (.str lit) args.tz)
    | none, none, some expr => .ok (.cron expr args.tz)
    | none, none, none => .error noTrigger

/-- `Trigger::parse`. -/
def Trigger.parse (fromStr : String → Except String Unit) (metas : List MetaNameValue) :
    Except String Trigger := do
  let args ← metas.foldlM Args.read ⟨none, none, none, none⟩
  args.trigger fromStr

section Arguments

variable {metas : List MetaNameValue} {args args' : Args} {t : Trigger}
  {fromStr : String → Except String Unit}

/-- The argument has a known name, and a literal for its value, which only `cron` can do without. -/
def MetaNameValue.Readable (arg : MetaNameValue) : Prop :=
  arg.ident = some "cron" ∨
    (arg.ident = some "every" ∨ arg.ident = some "after" ∨ arg.ident = some "tz") ∧
      ∃ lit, arg.value = .str lit

/-- The value of the last argument of this name. -/
def lastValue (key : String) (metas : List MetaNameValue) : Option Expr :=
  metas.foldl (fun last arg => if arg.ident = some key then some arg.value else last) none

/-- The literal of the last argument of this name. -/
def lastLit (key : String) (metas : List MetaNameValue) : Option String :=
  (lastValue key metas).bind fun
    | .str lit => some lit
    | .other _ => none

/-- What the loop has read. -/
def Args.of (metas : List MetaNameValue) : Args :=
  ⟨lastLit "every" metas, lastLit "after" metas, lastValue "cron" metas, lastLit "tz" metas⟩

theorem lastValue_snoc (key : String) (metas : List MetaNameValue) (arg : MetaNameValue) :
    lastValue key (metas ++ [arg]) =
      if arg.ident = some key then some arg.value else lastValue key metas := by
  rw [lastValue, List.foldl_append]
  rfl

theorem lastLit_snoc (key : String) (metas : List MetaNameValue) (arg : MetaNameValue) :
    lastLit key (metas ++ [arg]) = if arg.ident = some key then
      match arg.value with
      | .str lit => some lit
      | .other _ => none
    else lastLit key metas := by
  unfold lastLit
  rw [lastValue_snoc]
  split <;> rfl

theorem getD_eq_iff {ident : Option String} {key : String} (hkey : key ≠ "") :
    ident.getD "" = key ↔ ident = some key := by
  cases ident with
  | none => exact ⟨fun h => absurd h.symm hkey, nofun⟩
  | some name => simp

/-- One round of the loop. -/
theorem read_of (arg : MetaNameValue) :
    (Args.of metas).read arg = .ok args ↔
      arg.Readable ∧ args = Args.of (metas ++ [arg]) := by
  obtain ⟨ident, value⟩ := arg
  simp only [Args.read, getD_eq_iff (by decide : "every" ≠ ""),
    getD_eq_iff (by decide : "after" ≠ ""), getD_eq_iff (by decide : "tz" ≠ ""),
    getD_eq_iff (by decide : "cron" ≠ ""), MetaNameValue.Readable, Args.of, lastLit_snoc,
    lastValue_snoc]
  by_cases hevery : ident = some "every"
  · subst hevery
    cases value <;> simp [asStrLit, Except.map, eq_comm]
  · by_cases hafter : ident = some "after"
    · subst hafter
      cases value <;> simp [asStrLit, Except.map, eq_comm]
    · by_cases htz : ident = some "tz"
      · subst htz
        cases value <;> simp [asStrLit, Except.map, eq_comm]
      · by_cases hcron : ident = some "cron"
        · subst hcron
          simp [eq_comm]
        · simp [hevery, hafter, htz, hcron]

/-- **The loop reads every argument, and keeps the last of each name.** -/
theorem foldlM_read : metas.foldlM Args.read ⟨none, none, none, none⟩ = .ok args ↔
    (∀ arg ∈ metas, arg.Readable) ∧ args = Args.of metas := by
  induction metas using List.reverseRecOn generalizing args with
  | nil =>
    rw [List.foldlM_nil]
    exact ⟨fun h => ⟨nofun, (Except.ok.inj h).symm⟩, fun h => congrArg _ h.2.symm⟩
  | append_singleton metas arg ih =>
    rw [List.foldlM_append, bind_eq_ok]
    simp only [List.foldlM_cons, List.foldlM_nil, bind_pure, List.mem_append, List.mem_singleton,
      or_imp, forall_and, forall_eq]
    constructor
    · rintro ⟨args', hinit, hlast⟩
      obtain ⟨hread, rfl⟩ := ih.mp hinit
      obtain ⟨harg, rfl⟩ := (read_of arg).mp hlast
      exact ⟨⟨hread, harg⟩, rfl⟩
    · rintro ⟨⟨hread, harg⟩, rfl⟩
      exact ⟨_, ih.mpr ⟨hread, rfl⟩, (read_of arg).mpr ⟨harg, rfl⟩⟩

/-- What the arguments choose: one trigger, and a time zone only for a cron expression. -/
inductive Chooses (fromStr : String → Except String Unit) : Args → Trigger → Prop where
  | every (lit : String) (ms : Nat) (h : periodMillis lit.toList = .ok ms) :
      Chooses fromStr ⟨some lit, none, none, none⟩ (.interval ms)
  | after (lit : String) (ms : Nat) (h : periodMillis lit.toList = .ok ms) :
      Chooses fromStr ⟨none, some lit, none, none⟩ (.timeout ms)
  | literal (lit : String) (tz : Option String) (h : fromStr lit = .ok ()) :
      Chooses fromStr ⟨none, none, some (.str lit), tz⟩ (.cron (.str lit) tz)
  | path (tokens : String) (tz : Option String) :
      Chooses fromStr ⟨none, none, some (.other tokens), tz⟩ (.cron (.other tokens) tz)

theorem trigger_eq_ok_iff : args.trigger fromStr = .ok t ↔ Chooses fromStr args t := by
  constructor
  · obtain ⟨every, after, cron, tz⟩ := args
    intro h
    unfold Args.trigger at h
    cases every with
    | some lit =>
      cases after <;> cases cron <;> cases tz <;> simp at h
      obtain ⟨ms, hms, rfl⟩ := map_eq_ok.mp h
      exact .every lit ms hms
    | none =>
      cases after with
      | some lit =>
        cases cron <;> cases tz <;> simp at h
        obtain ⟨ms, hms, rfl⟩ := map_eq_ok.mp h
        exact .after lit ms hms
      | none =>
        cases cron with
        | none => simp at h
        | some expr =>
          cases expr with
          | other tokens =>
            simp at h
            exact h ▸ .path tokens tz
          | str lit =>
            simp at h
            split at h
            · exact nomatch h
            · rename_i hlit
              cases h
              exact .literal lit tz hlit
  · intro h
    cases h with
    | every lit ms h => simp [Args.trigger, h, Except.map]
    | after lit ms h => simp [Args.trigger, h, Except.map]
    | literal lit tz h => simp [Args.trigger, h]
    | path tokens tz => simp [Args.trigger]

/-- **Which arguments are accepted, and for what trigger**: every one has a known name and a value
of its kind, and the last ones of each name choose exactly one trigger. -/
theorem parse_eq_ok_iff (fromStr : String → Except String Unit) (metas : List MetaNameValue)
    (t : Trigger) :
    Trigger.parse fromStr metas = .ok t ↔
      (∀ arg ∈ metas, arg.Readable) ∧ Chooses fromStr (Args.of metas) t := by
  unfold Trigger.parse
  rw [bind_eq_ok]
  constructor
  · rintro ⟨args, hread, htrigger⟩
    obtain ⟨hreadable, rfl⟩ := foldlM_read.mp hread
    exact ⟨hreadable, trigger_eq_ok_iff.mp htrigger⟩
  · rintro ⟨hreadable, hchooses⟩
    exact ⟨_, foldlM_read.mpr ⟨hreadable, rfl⟩, trigger_eq_ok_iff.mpr hchooses⟩

/-- An accepted interval or delay is positive, and its milliseconds fit 64 bits. -/
theorem parse_period {ms : Nat} (h : Trigger.parse fromStr metas = .ok t)
    (ht : t = .interval ms ∨ t = .timeout ms) : 0 < ms ∧ ms < 2 ^ 64 := by
  unfold Trigger.parse at h
  obtain ⟨args, -, htrigger⟩ := bind_eq_ok.mp h
  cases trigger_eq_ok_iff.mp htrigger with
  | every lit ms' hms =>
    obtain rfl : ms' = ms := by simpa using ht
    exact periodMillis_pos hms
  | after lit ms' hms =>
    obtain rfl : ms' = ms := by simpa using ht
    exact periodMillis_pos hms
  | literal lit tz hlit => simp at ht
  | path tokens tz => simp at ht

end Arguments

end Nestrs.Schedule.CronJob
