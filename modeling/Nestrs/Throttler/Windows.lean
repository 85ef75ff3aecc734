import Nestrs.Throttler.Guard
import Mathlib.Data.List.Infix
import Mathlib.Data.List.Range

/-!
# The windows of the throttler

`InMemoryThrottler::hit` (`crates/nestrs-throttler/src/store.rs`) over whole runs, one limit for
each key. The clock is read before the lock is taken, so the readings of a run come in any order;
`duration_since` saturates at zero. The counter is a `u32` that `+= 1` brings to an overflow, which
panics in a build with overflow checks and wraps in one without: `hitIn` has both, and
`hitIn_false` says that `hit` of `Guard.lean` is the second.

The log of a run has an entry for each hit: whether it opened a window, whether its increment
overflows, and its decision. A window of a key's log is an entry that opened one and entries behind
it that did not (`InWindow`).

Results:
* `logOf_eq`: what happens to a key is a run of its own readings on its own window;
* `closed_run`: the hits in a window are counted through, up to the counter's bound;
* **`store_windows`**: the fixed-window guarantees, where windows get fewer than `2 ^ 32` hits;
* **`counter_never_wraps_iff`**: the counter neither overflows nor lets a hit through after a
  denied one, iff they do.
-/

namespace Nestrs.Throttler

/-! ## One hit -/

/-- `window.count += 1`, in a build with overflow checks and in one without; `none` is a panic. -/
def Window.increment (checks : Bool) (w : Window) : Option Window :=
  if checks = true ∧ 2 ^ 32 ≤ w.count + 1 then none else some w.bump

theorem increment_false (w : Window) : w.increment false = some w.bump :=
  if_neg fun h => Bool.false_ne_true h.1

theorem increment_of_fits {w : Window} (checks : Bool) (h : w.count + 1 < 2 ^ 32) :
    w.increment checks = some ⟨w.start, w.count + 1⟩ := by
  unfold Window.increment Window.bump
  rw [if_neg (fun hfull => absurd hfull.2 (Nat.not_le.mpr h)), Nat.mod_eq_of_lt h]

/-- The decision on a counted hit. -/
def Window.decision (w : Window) (limit : Throttle) (now : Nat) : Decision :=
  if limit.limit < w.count then ⟨false, limit.window - (now - w.start)⟩ else ⟨true, 0⟩

theorem allowed_decision (w : Window) (limit : Throttle) (now : Nat) :
    (w.decision limit now).allowed = decide (w.count ≤ limit.limit) := by
  unfold Window.decision
  by_cases h : limit.limit < w.count
  · rw [if_pos h, decide_eq_false (Nat.not_le.mpr h)]
  · rw [if_neg h, decide_eq_true (Nat.not_lt.mp h)]

/-- What a hit does with the window of its key, and how it ends. -/
def Window.hit (checks : Bool) (limit : Throttle) (w : Option Window) (now : Nat) :
    Option Decision × Window :=
  let window := (w.getD ⟨now, 0⟩).refresh limit now
  match window.increment checks with
  | some window => (some (window.decision limit now), window)
  | none => (none, window)

/-- `InMemoryThrottler::hit`, in either build. A panic releases the lock. -/
def InMemoryThrottler.hitIn (checks : Bool) (t : InMemoryThrottler) (key : String)
    (limit : Throttle) (now : Nat) : Option Decision × InMemoryThrottler :=
  let (decision, window) := Window.hit checks limit (t.windows key) now
  (decision, { t with windows := fun k => if k = key then some window else t.windows k })

theorem hitIn_false (t : InMemoryThrottler) (key : String) (limit : Throttle) (now : Nat) :
    t.hitIn false key limit now = (some (t.hit key limit now).1, (t.hit key limit now).2) := by
  unfold InMemoryThrottler.hitIn Window.hit
  simp only [increment_false]
  rfl

/-- The hit opens a window: the first of its key, or one after the last has elapsed. -/
def opens (limit : Throttle) (w : Option Window) (now : Nat) : Bool :=
  match w with
  | none => true
  | some w => decide (limit.window ≤ now - w.start)

/-- The increment of the hit exceeds a `u32`. -/
def overflows (limit : Throttle) (w : Option Window) (now : Nat) : Bool :=
  decide (2 ^ 32 ≤ ((w.getD ⟨now, 0⟩).refresh limit now).count + 1)

theorem refresh_of_opens {limit : Throttle} {w : Option Window} {now : Nat}
    (h : opens limit w now = true) : (w.getD ⟨now, 0⟩).refresh limit now = ⟨now, 0⟩ := by
  unfold Window.refresh
  cases w with
  | none => exact ite_self _
  | some w => exact if_pos (of_decide_eq_true h)

theorem refresh_of_not_opens {limit : Throttle} {w : Window} {now : Nat}
    (h : opens limit (some w) now = false) : ((some w).getD ⟨now, 0⟩).refresh limit now = w :=
  if_neg (of_decide_eq_false h)

section Hit

variable {checks : Bool} {limit : Throttle} {now : Nat}

/-- A hit that opens a window is its first. -/
theorem hit_of_opens {w : Option Window} (h : opens limit w now = true) :
    Window.hit checks limit w now = (some (Window.decision ⟨now, 1⟩ limit now), ⟨now, 1⟩) := by
  unfold Window.hit
  rw [refresh_of_opens h]
  have hone : (⟨now, 0⟩ : Window).count + 1 < 2 ^ 32 := Nat.one_lt_two_pow (by decide)
  simp only [increment_of_fits checks hone]

/-- Any other is counted in the window there is. -/
theorem hit_of_fits {w : Window} (h : opens limit (some w) now = false)
    (hfits : w.count + 1 < 2 ^ 32) :
    Window.hit checks limit (some w) now =
      (some (Window.decision ⟨w.start, w.count + 1⟩ limit now), ⟨w.start, w.count + 1⟩) := by
  unfold Window.hit
  rw [refresh_of_not_opens h]
  simp only [increment_of_fits checks hfits]

theorem overflows_of_opens {w : Option Window} (h : opens limit w now = true) :
    overflows limit w now = false := by
  unfold overflows
  rw [refresh_of_opens h]
  exact decide_eq_false (Nat.not_le.mpr (Nat.one_lt_two_pow (by decide)))

theorem overflows_of_not_opens {w : Window} (h : opens limit (some w) now = false) :
    overflows limit (some w) now = decide (2 ^ 32 ≤ w.count + 1) := by
  unfold overflows
  rw [refresh_of_not_opens h]

theorem start_hit {w : Window} (h : opens limit (some w) now = false) :
    (Window.hit checks limit (some w) now).2.start = w.start := by
  unfold Window.hit
  rw [refresh_of_not_opens h]
  simp only
  cases hnext : w.increment checks with
  | none => rfl
  | some next =>
    unfold Window.increment at hnext
    split at hnext
    · cases hnext
    · obtain rfl := Option.some.inj hnext
      rfl

/-- At the counter's end a hit panics, or counts from zero again. -/
theorem hit_of_full {w : Window} (h : opens limit (some w) now = false)
    (hfull : w.count + 1 = 2 ^ 32) :
    Window.hit checks limit (some w) now =
      if checks = true then (none, w)
      else (some (Window.decision ⟨w.start, 0⟩ limit now), ⟨w.start, 0⟩) := by
  unfold Window.hit Window.increment
  rw [refresh_of_not_opens h]
  simp only [Window.bump, hfull, Nat.mod_self, le_refl, and_true]
  cases checks with
  | true => rfl
  | false => rfl

theorem count_hit_lt {w : Option Window} (hw : ∀ x, w = some x → x.count < 2 ^ 32) :
    (Window.hit checks limit w now).2.count < 2 ^ 32 := by
  cases hopens : opens limit w now with
  | true =>
    rw [hit_of_opens hopens]
    exact Nat.one_lt_two_pow (by decide)
  | false =>
    cases w with
    | none => cases hopens
    | some w =>
      have hcount := hw w rfl
      by_cases hfits : w.count + 1 < 2 ^ 32
      · rw [hit_of_fits hopens hfits]
        exact hfits
      · rw [hit_of_full hopens (by omega)]
        split
        · exact hcount
        · exact Nat.two_pow_pos 32

end Hit

/-! ## Runs -/

/-- A hit, with its clock reading. -/
structure Hit where
  key : String
  now : Nat

/-- What a hit did. -/
structure Entry where
  key : String
  now : Nat
  opened : Bool
  overflows : Bool
  decision : Option Decision

/-- Whether the hit was allowed; `none` if it panicked. -/
def Entry.allowed (e : Entry) : Option Bool := e.decision.map Decision.allowed

/-- The entry of a hit that finds this window. -/
def entry (checks : Bool) (limit : Throttle) (key : String) (w : Option Window) (now : Nat) :
    Entry :=
  ⟨key, now, opens limit w now, overflows limit w now, (Window.hit checks limit w now).1⟩

theorem allowed_of_opens {checks : Bool} {limit : Throttle} {key : String} {w : Option Window}
    {now : Nat} (h : opens limit w now = true) :
    (entry checks limit key w now).allowed = some (decide (0 < limit.limit)) := by
  unfold Entry.allowed entry
  rw [hit_of_opens h, Option.map_some, allowed_decision]
  rfl

theorem allowed_of_fits {checks : Bool} {limit : Throttle} {key : String} {w : Window} {now : Nat}
    (h : opens limit (some w) now = false) (hfits : w.count + 1 < 2 ^ 32) :
    (entry checks limit key (some w) now).allowed = some (decide (w.count < limit.limit)) := by
  unfold Entry.allowed entry
  rw [hit_of_fits h hfits, Option.map_some, allowed_decision]
  rfl

/-- The log of a run, in the order in which the hits get the lock. -/
def log (checks : Bool) (limits : String → Throttle) : List Hit → InMemoryThrottler → List Entry
  | [], _ => []
  | h :: hs, t =>
    entry checks (limits h.key) h.key (t.windows h.key) h.now ::
      log checks limits hs (t.hitIn checks h.key (limits h.key) h.now).2

/-- The entries of a key, in a run from the start. -/
def logOf (checks : Bool) (limits : String → Throttle) (default : Throttle) (hs : List Hit)
    (key : String) : List Entry :=
  (log checks limits hs (.new default)).filter fun e => e.key = key

/-- The clock readings of a key's hits. -/
def readings (hs : List Hit) (key : String) : List Nat :=
  (hs.filter fun h => h.key = key).map Hit.now

/-- The log of hits on one window. -/
def windowLog (checks : Bool) (limit : Throttle) (key : String) :
    List Nat → Option Window → List Entry
  | [], _ => []
  | now :: nows, w =>
    entry checks limit key w now ::
      windowLog checks limit key nows (some (Window.hit checks limit w now).2)

/-- These are hits in one window of the log: the one that opened it, and others behind it. -/
structure InWindow (es : List Entry) (o : Entry) (ws : List Entry) : Prop where
  within : o :: ws <:+: es
  opened : o.opened = true
  closed : ∀ e ∈ ws, e.opened = false

/-- No window gets `2 ^ 32` hits. -/
def FewHits (es : List Entry) : Prop := ∀ o ws, InWindow es o ws → (o :: ws).length < 2 ^ 32

/-! ## One key -/

theorem windows_hitIn_of_ne {checks : Bool} {t : InMemoryThrottler} {key k : String}
    {limit : Throttle} {now : Nat} (h : k ≠ key) :
    (t.hitIn checks key limit now).2.windows k = t.windows k := if_neg h

theorem windows_hitIn {checks : Bool} {t : InMemoryThrottler} {key : String} {limit : Throttle}
    {now : Nat} : (t.hitIn checks key limit now).2.windows key =
      some (Window.hit checks limit (t.windows key) now).2 := if_pos rfl

theorem filter_log (checks : Bool) (limits : String → Throttle) (hs : List Hit)
    (t : InMemoryThrottler) (key : String) :
    ((log checks limits hs t).filter fun e => e.key = key) =
      windowLog checks (limits key) key (readings hs key) (t.windows key) := by
  induction hs generalizing t with
  | nil => rfl
  | cons h hs ih =>
    unfold log readings
    by_cases hkey : h.key = key
    · subst hkey
      rw [List.filter_cons_of_pos (by simp [entry]), List.filter_cons_of_pos (by simp),
        List.map_cons, ih, windows_hitIn]
      rfl
    · rw [List.filter_cons_of_neg (by simp [entry, hkey]), List.filter_cons_of_neg (by simp [hkey]),
        ih, windows_hitIn_of_ne (Ne.symm hkey)]
      rfl

/-- **A key has a window of its own.** What its hits do is what they would do alone. -/
theorem logOf_eq (checks : Bool) (limits : String → Throttle) (default : Throttle) (hs : List Hit)
    (key : String) :
    logOf checks limits default hs key =
      windowLog checks (limits key) key (readings hs key) none :=
  filter_log checks limits hs (.new default) key

section Window

variable {checks : Bool} {limit : Throttle} {key : String}

/-- The window after hits. -/
def windowAfter (checks : Bool) (limit : Throttle) (nows : List Nat) (w : Option Window) :
    Option Window :=
  nows.foldl (fun w now => some (Window.hit checks limit w now).2) w

/-- An entry of the log, with the hits before and behind it. -/
theorem windowLog_split {nows : List Nat} {w : Option Window} {before rest : List Entry}
    {e : Entry} (h : windowLog checks limit key nows w = before ++ e :: rest) :
    ∃ pre now post, nows = pre ++ now :: post ∧
      before = windowLog checks limit key pre w ∧
      e = entry checks limit key (windowAfter checks limit pre w) now ∧
      rest = windowLog checks limit key post
        (some (Window.hit checks limit (windowAfter checks limit pre w) now).2) := by
  induction before generalizing nows w with
  | nil =>
    cases nows with
    | nil => exact nomatch h
    | cons now nows =>
      obtain ⟨he, hrest⟩ := List.cons.inj h
      exact ⟨[], now, nows, rfl, rfl, he.symm, hrest.symm⟩
  | cons b before ih =>
    cases nows with
    | nil => exact nomatch h
    | cons now nows =>
      obtain ⟨hb, hrest⟩ := List.cons.inj h
      obtain ⟨pre, now', post, rfl, rfl, he, hpost⟩ := ih hrest
      exact ⟨now :: pre, now', post, rfl, by rw [windowLog, hb], he, hpost⟩

/-- **Hits in a window are counted through**: as long as the counter holds them, each is decided by
its number. -/
theorem closed_run {ws after : List Entry} {nows : List Nat} {start count : Nat}
    (h : windowLog checks limit key nows (some ⟨start, count⟩) = ws ++ after)
    (hclosed : ∀ e ∈ ws, e.opened = false) (hfits : count + ws.length < 2 ^ 32) :
    (∀ e ∈ ws, e.overflows = false) ∧
      ws.map Entry.allowed =
        (List.range ws.length).map (fun i => some (decide (count + i < limit.limit))) ∧
      ∃ post, after = windowLog checks limit key post (some ⟨start, count + ws.length⟩) := by
  induction ws generalizing nows count with
  | nil => exact ⟨fun e he => absurd he List.not_mem_nil, rfl, nows, h.symm⟩
  | cons e ws ih =>
    cases nows with
    | nil => exact nomatch h
    | cons now nows =>
      obtain ⟨he, hrest⟩ := List.cons.inj h
      obtain ⟨hnot, hclosed⟩ := List.forall_mem_cons.mp hclosed
      rw [List.length_cons] at hfits
      rw [← he] at hnot
      have hone : count + 1 < 2 ^ 32 := by omega
      have hflag : overflows limit (some ⟨start, count⟩) now = false := by
        rw [overflows_of_not_opens hnot]
        exact decide_eq_false (Nat.not_le.mpr hone)
      have hhit : Window.hit checks limit (some ⟨start, count⟩) now =
          (some (Window.decision ⟨start, count + 1⟩ limit now), ⟨start, count + 1⟩) :=
        hit_of_fits hnot hone
      rw [hhit] at hrest
      obtain ⟨hflags, hallowed, post, hafter⟩ := ih hrest hclosed (by omega)
      refine ⟨?_, ?_, post, ?_⟩
      · rw [← he]
        exact List.forall_mem_cons.mpr ⟨hflag, hflags⟩
      · have hfirst : e.allowed = some (decide (count < limit.limit)) := by
          rw [← he]
          exact allowed_of_fits hnot hone
        rw [List.map_cons, hfirst, hallowed, List.length_cons, List.range_succ_eq_map,
          List.map_cons, List.map_map]
        refine congrArg₂ List.cons rfl (List.map_congr_left fun i _ => ?_)
        simp only [Function.comp_apply, Nat.succ_eq_add_one, Nat.add_right_comm count 1 i,
          Nat.add_assoc]
      · rw [hafter, List.length_cons, Nat.add_right_comm, Nat.add_assoc]

/-- A window of the log, from the hit that opened it. -/
theorem run_of_window {nows : List Nat} {w : Option Window} {o : Entry} {ws : List Entry}
    (h : InWindow (windowLog checks limit key nows w) o ws) :
    o.overflows = false ∧ o.allowed = some (decide (0 < limit.limit)) ∧
      ∃ post after, windowLog checks limit key post (some ⟨o.now, 1⟩) = ws ++ after := by
  obtain ⟨before, after, hlog⟩ := h.within
  rw [List.append_assoc, List.cons_append] at hlog
  obtain ⟨pre, now, post, -, -, ho, hrest⟩ := windowLog_split hlog.symm
  have hopens : opens limit (windowAfter checks limit pre w) now = true := by
    have hopened := h.opened
    rw [ho] at hopened
    exact hopened
  rw [hit_of_opens hopens] at hrest
  subst ho
  exact ⟨overflows_of_opens hopens, allowed_of_opens hopens, post, after, hrest.symm⟩

/-- In a window that the counter holds, exactly the hits up to the limit are allowed. -/
theorem window_run {nows : List Nat} {w : Option Window} {o : Entry} {ws : List Entry}
    (h : InWindow (windowLog checks limit key nows w) o ws) (hfew : (o :: ws).length < 2 ^ 32) :
    (∀ e ∈ o :: ws, e.overflows = false) ∧
      (o :: ws).map Entry.allowed =
        (List.range (o :: ws).length).map fun i => some (decide (i < limit.limit)) := by
  obtain ⟨hflag, hallowed, post, after, hrest⟩ := run_of_window h
  rw [List.length_cons] at hfew
  obtain ⟨hflags, hrun, -⟩ := closed_run hrest h.closed (by omega)
  refine ⟨List.forall_mem_cons.mpr ⟨hflag, hflags⟩, ?_⟩
  rw [List.map_cons, hallowed, hrun, List.length_cons, List.range_succ_eq_map, List.map_cons,
    List.map_map]
  refine congrArg₂ List.cons rfl (List.map_congr_left fun i _ => ?_)
  simp only [Function.comp_apply, Nat.succ_eq_add_one, Nat.add_comm 1 i]

/-- Hits that do not overflow have not filled the counter. -/
theorem fits_of_run {ws after : List Entry} {nows : List Nat} {start count : Nat}
    (h : windowLog checks limit key nows (some ⟨start, count⟩) = ws ++ after)
    (hclosed : ∀ e ∈ ws, e.opened = false) (hflags : ∀ e ∈ ws, e.overflows = false)
    (hcount : count < 2 ^ 32) : count + ws.length < 2 ^ 32 := by
  induction ws generalizing nows count with
  | nil => exact hcount
  | cons e ws ih =>
    cases nows with
    | nil => exact nomatch h
    | cons now nows =>
      obtain ⟨he, hrest⟩ := List.cons.inj h
      obtain ⟨hnot, hotherClosed⟩ := List.forall_mem_cons.mp hclosed
      obtain ⟨hflag, hotherFlags⟩ := List.forall_mem_cons.mp hflags
      subst he
      have hone : count + 1 < 2 ^ 32 := by
        have hfull := (overflows_of_not_opens hnot).symm.trans hflag
        exact Nat.not_le.mp (of_decide_eq_false hfull)
      have hhit : Window.hit checks limit (some ⟨start, count⟩) now =
          (some (Window.decision ⟨start, count + 1⟩ limit now), ⟨start, count + 1⟩) :=
        hit_of_fits hnot hone
      rw [hhit] at hrest
      have hlength := ih hrest hotherClosed hotherFlags hone
      rw [List.length_cons]
      omega

/-- The last window of a log. -/
theorem exists_last_window {es : List Entry} (hhead : ∀ e ∈ es.head?, e.opened = true)
    (hne : es ≠ []) :
    ∃ o ws, o :: ws <:+ es ∧ o.opened = true ∧ ∀ e ∈ ws, e.opened = false := by
  induction es using List.reverseRecOn with
  | nil => exact absurd rfl hne
  | append_singleton es e ih =>
    cases hopened : e.opened with
    | true => exact ⟨e, [], List.suffix_append es [e], hopened, by simp⟩
    | false =>
      cases es with
      | nil =>
        rw [hhead e rfl] at hopened
        cases hopened
      | cons x es =>
        obtain ⟨o, ws, ⟨before, hsuffix⟩, ho, hclosed⟩ := ih hhead (List.cons_ne_nil x es)
        refine ⟨o, ws ++ [e], ⟨before, ?_⟩, ho, ?_⟩
        · rw [← hsuffix, List.append_assoc, List.cons_append]
        · intro e' he'
          rcases List.mem_append.mp he' with he' | he'
          · exact hclosed e' he'
          · rw [List.mem_singleton.mp he']
            exact hopened

theorem head_windowLog (nows : List Nat) :
    ∀ e ∈ (windowLog checks limit key nows none).head?, e.opened = true := by
  intro e he
  cases nows with
  | nil => cases he
  | cons now nows =>
    obtain rfl := Option.some.inj he
    rfl

/-- Every hit is in a window. -/
theorem exists_window {nows : List Nat} {e : Entry}
    (he : e ∈ windowLog checks limit key nows none) :
    ∃ o ws, InWindow (windowLog checks limit key nows none) o ws ∧ e ∈ o :: ws := by
  obtain ⟨before, after, hsplit⟩ := List.append_of_mem he
  have hhead : ∀ x ∈ (windowLog checks limit key nows none).head?, x.opened = true :=
    head_windowLog nows
  rw [hsplit] at hhead ⊢
  have hprefix : ∀ x ∈ (before ++ [e]).head?, x.opened = true := by
    intro x hx
    refine hhead x ?_
    cases before with
    | nil => exact hx
    | cons b before => exact hx
  obtain ⟨o, ws, ⟨first, hlast⟩, ho, hclosed⟩ := exists_last_window hprefix (by simp)
  refine ⟨o, ws, ⟨⟨first, after, ?_⟩, ho, hclosed⟩, ?_⟩
  · rw [hlast, List.append_assoc]
    rfl
  · have hmem : (o :: ws).getLast? = some e := by
      rw [← List.getLast?_append_of_ne_nil first (List.cons_ne_nil o ws), hlast]
      simp
    exact List.mem_of_getLast? hmem

end Window

/-! ## The counter -/

/-- No increment overflows, and a denied hit is followed by denied hits only, in its window. -/
structure CounterHolds (es : List Entry) : Prop where
  fits : ∀ e ∈ es, e.overflows = false
  stays : ∀ o ws, InWindow es o ws →
    (o :: ws).Pairwise fun e e' => e.allowed = some false → e'.allowed = some false

section Counter

variable {checks : Bool} {limit : Throttle} {key : String} {nows : List Nat}

theorem fewHits_of_fits
    (h : ∀ e ∈ windowLog checks limit key nows none, e.overflows = false) :
    FewHits (windowLog checks limit key nows none) := by
  intro o ws hwindow
  obtain ⟨-, -, post, after, hrest⟩ := run_of_window hwindow
  have hflags : ∀ e ∈ ws, e.overflows = false := fun e he =>
    h e (hwindow.within.subset (List.mem_cons_of_mem o he))
  have hlength := fits_of_run hrest hwindow.closed hflags (Nat.one_lt_two_pow (by decide))
  rw [List.length_cons]
  omega

theorem counterHolds_of_fewHits (h : FewHits (windowLog checks limit key nows none)) :
    CounterHolds (windowLog checks limit key nows none) where
  fits e he := by
    obtain ⟨o, ws, hwindow, hmem⟩ := exists_window he
    exact (window_run hwindow (h o ws hwindow)).1 e hmem
  stays o ws hwindow := by
    have hallowed := (window_run hwindow (h o ws hwindow)).2
    have hpairs : ((o :: ws).map Entry.allowed).Pairwise fun b b' =>
        b = some false → b' = some false := by
      rw [hallowed, List.pairwise_map]
      refine List.pairwise_lt_range.imp fun hlt hdenied => ?_
      have hpast := of_decide_eq_false (Option.some.inj hdenied)
      exact congrArg some (decide_eq_false (by omega))
    exact List.pairwise_map.mp hpairs

/-- What an overflow does: it panics, or the hit is allowed. -/
theorem allowed_of_overflows {w : Option Window} (hw : ∀ x, w = some x → x.count < 2 ^ 32)
    {e : Entry} (he : e ∈ windowLog checks limit key nows w) (hflag : e.overflows = true) :
    e.allowed = if checks = true then none else some true := by
  induction nows generalizing w with
  | nil => exact absurd he List.not_mem_nil
  | cons now nows ih =>
    rcases List.mem_cons.mp he with rfl | he
    · cases hopens : opens limit w now with
      | true =>
        have hno := overflows_of_opens hopens
        unfold entry at hflag
        rw [hno] at hflag
        cases hflag
      | false =>
        cases w with
        | none => cases hopens
        | some w =>
          have hcount := hw w rfl
          have hfull : 2 ^ 32 ≤ w.count + 1 :=
            of_decide_eq_true ((overflows_of_not_opens hopens).symm.trans hflag)
          unfold Entry.allowed entry
          rw [hit_of_full hopens (by omega)]
          cases checks with
          | true => rfl
          | false =>
            rw [if_neg Bool.false_ne_true, Option.map_some, allowed_decision]
            rfl
    · refine ih (fun x hx => ?_) he
      obtain rfl := Option.some.inj hx
      exact count_hit_lt hw

end Counter

/-- **The counter.** In every run and both builds, the hits on a key never overflow the counter, and
never get through after a denied one in the same window, iff no window gets `2 ^ 32` of them. -/
theorem counter_never_wraps_iff (checks : Bool) (limits : String → Throttle) (default : Throttle)
    (hs : List Hit) (key : String) :
    CounterHolds (logOf checks limits default hs key) ↔
      FewHits (logOf checks limits default hs key) := by
  rw [logOf_eq]
  exact ⟨fun h => fewHits_of_fits h.fits, counterHolds_of_fewHits⟩

/-! ### A flood -/

theorem length_windowLog (checks : Bool) (limit : Throttle) (key : String) (nows : List Nat)
    (w : Option Window) : (windowLog checks limit key nows w).length = nows.length := by
  induction nows generalizing w with
  | nil => rfl
  | cons now nows ih => rw [windowLog, List.length_cons, ih, List.length_cons]

/-- Hits at the moment a window was opened are in that window. -/
theorem closed_of_replicate {checks : Bool} {limit : Throttle} {key : String} {n now : Nat}
    (hlimit : 0 < limit.window) {w : Window} (hw : w.start = now) {e : Entry}
    (he : e ∈ windowLog checks limit key (List.replicate n now) (some w)) : e.opened = false := by
  induction n generalizing w with
  | zero => exact absurd he List.not_mem_nil
  | succ n ih =>
    have hopens : opens limit (some w) now = false := by
      refine decide_eq_false (Nat.not_le.mpr ?_)
      rw [hw, Nat.sub_self]
      exact hlimit
    rw [List.replicate_succ] at he
    rcases List.mem_cons.mp he with rfl | he
    · exact hopens
    · exact ih ((start_hit hopens).trans hw) he

/-- Hits at one moment are in one window. -/
theorem inWindow_replicate (checks : Bool) (limit : Throttle) (hlimit : 0 < limit.window)
    (key : String) (n now : Nat) :
    ∃ o ws, InWindow (windowLog checks limit key (List.replicate (n + 1) now) none) o ws ∧
      (o :: ws).length = n + 1 := by
  have hopens : opens limit none now = true := rfl
  have hlog : windowLog checks limit key (List.replicate (n + 1) now) none =
      entry checks limit key none now ::
        windowLog checks limit key (List.replicate n now) (some ⟨now, 1⟩) := by
    rw [List.replicate_succ, windowLog, hit_of_opens hopens]
  refine ⟨entry checks limit key none now,
    windowLog checks limit key (List.replicate n now) (some ⟨now, 1⟩), ⟨?_, rfl, ?_⟩, ?_⟩
  · rw [hlog]
  · intro e he
    have hstart : (⟨now, 1⟩ : Window).start = now := rfl
    exact closed_of_replicate hlimit hstart he
  · rw [List.length_cons, length_windowLog, List.length_replicate]

/-- One request in a minute. -/
def oneInAMinute : Throttle := ⟨1, 60 * 10 ^ 9⟩

/-- As many hits of one client, at one moment, as its counter has values. -/
def flood : List Hit := List.replicate (2 ^ 32) ⟨"203.0.113.7", 0⟩

/-- One of them is let through, or panics, after the second was denied. -/
theorem flood_overflows (checks : Bool) :
    ¬ CounterHolds (logOf checks (fun _ => oneInAMinute) oneInAMinute flood "203.0.113.7") ∧
    ∃ e ∈ logOf checks (fun _ => oneInAMinute) oneInAMinute flood "203.0.113.7",
      e.overflows = true ∧ e.allowed = if checks = true then none else some true := by
  have hreadings : readings flood "203.0.113.7" = List.replicate (2 ^ 32 - 1 + 1) 0 := by
    unfold readings flood
    rw [List.filter_replicate, if_pos (decide_eq_true rfl), List.map_replicate,
      Nat.sub_add_cancel Nat.one_le_two_pow]
  rw [logOf_eq, hreadings]
  obtain ⟨o, ws, hwindow, hlength⟩ :=
    inWindow_replicate checks oneInAMinute (by decide) "203.0.113.7" (2 ^ 32 - 1) 0
  have hnot : ¬ ∀ e ∈ windowLog checks oneInAMinute "203.0.113.7"
      (List.replicate (2 ^ 32 - 1 + 1) 0) none, e.overflows = false := by
    intro hfits
    have hfew := fewHits_of_fits hfits o ws hwindow
    omega
  refine ⟨fun h => hnot h.fits, ?_⟩
  obtain ⟨e, he, hflag⟩ := not_forall₂.mp hnot
  have hoverflows : e.overflows = true := by
    simpa using hflag
  refine ⟨e, he, hoverflows, allowed_of_overflows (fun x hx => ?_) he hoverflows⟩
  cases hx

/-- A panic in a build with overflow checks, a hit let through in one without. -/
theorem flood_wraps :
    (¬ CounterHolds (logOf true (fun _ => oneInAMinute) oneInAMinute flood "203.0.113.7") ∧
      ∃ e ∈ logOf true (fun _ => oneInAMinute) oneInAMinute flood "203.0.113.7",
        e.overflows = true ∧ e.allowed = none) ∧
    ¬ CounterHolds (logOf false (fun _ => oneInAMinute) oneInAMinute flood "203.0.113.7") ∧
      ∃ e ∈ logOf false (fun _ => oneInAMinute) oneInAMinute flood "203.0.113.7",
        e.overflows = true ∧ e.allowed = some true :=
  ⟨flood_overflows true, flood_overflows false⟩

/-! ## Any interval -/

/-- The hits allowed in the half-open interval of this length. -/
def allowedWithin (a length : Nat) (es : List Entry) : Nat :=
  es.countP fun e => e.allowed = some true && a ≤ e.now && e.now < a + length

section Interval

variable {checks : Bool} {limit : Throttle} {key : String} {a : Nat}

theorem allowedWithin_cons (length : Nat) (e : Entry) (es : List Entry) :
    allowedWithin a length (e :: es) =
      allowedWithin a length [e] + allowedWithin a length es := by
  unfold allowedWithin
  rw [show e :: es = [e] ++ es from rfl, List.countP_append]

theorem now_of_mem_windowLog {nows : List Nat} {w : Option Window} {e : Entry}
    (h : e ∈ windowLog checks limit key nows w) : e.now ∈ nows := by
  induction nows generalizing w with
  | nil => exact absurd h List.not_mem_nil
  | cons now nows ih =>
    rcases List.mem_cons.mp h with rfl | h
    · exact List.mem_cons_self
    · exact List.mem_cons_of_mem now (ih h)

/-- Outside the interval nothing is counted. -/
theorem allowedWithin_of_outside {length : Nat} {es : List Entry}
    (h : ∀ e ∈ es, e.now < a ∨ a + length ≤ e.now) : allowedWithin a length es = 0 := by
  unfold allowedWithin
  rw [List.countP_eq_zero]
  intro e he
  have hout := h e he
  simp only [Bool.and_eq_true, decide_eq_true_eq, not_and, Nat.not_lt]
  omega

/-- A hit counts once at most, and if it is within the limit. -/
theorem allowedWithin_one {length n : Nat} {e : Entry}
    (h : e.allowed = some (decide (n < limit.limit))) :
    allowedWithin a length [e] ≤ if n < limit.limit then 1 else 0 := by
  unfold allowedWithin
  by_cases hlt : n < limit.limit
  · rw [if_pos hlt]
    exact List.countP_le_length
  · rw [if_neg hlt, Nat.le_zero, List.countP_eq_zero]
    intro e' he'
    obtain rfl := List.mem_singleton.mp he'
    simp [h, hlt]

/-- One hit in an interval that has begun and is not over: what it adds is taken from what was
left. -/
theorem step_allowedWithin {w : Option Window} {now : Nat} (hnow : a ≤ now)
    (hover : now < a + limit.window) (hflag : (entry checks limit key w now).overflows = false) :
    allowedWithin a limit.window [entry checks limit key w now] +
        left limit.limit a (some (Window.hit checks limit w now).2) ≤ left limit.limit a w := by
  cases hopens : opens limit w now with
  | true =>
    have hone : allowedWithin a limit.window [entry checks limit key w now] ≤
        if 0 < limit.limit then 1 else 0 := allowedWithin_one (allowed_of_opens hopens)
    rw [hit_of_opens hopens]
    cases w with
    | none =>
      simp only [left, if_neg (Nat.not_lt.mpr hnow)]
      split at hone <;> omega
    | some w =>
      -- the window that has elapsed was opened before the interval
      have hstart : w.start < a := by
        have helapsed : limit.window ≤ now - w.start := of_decide_eq_true hopens
        omega
      simp only [left, if_neg (Nat.not_lt.mpr hnow), if_pos hstart]
      split at hone <;> omega
  | false =>
    cases w with
    | none => cases hopens
    | some w =>
      have hfits : w.count + 1 < 2 ^ 32 := by
        have hfull := (overflows_of_not_opens hopens).symm.trans hflag
        exact Nat.not_le.mp (of_decide_eq_false hfull)
      have hone : allowedWithin a limit.window [entry checks limit key (some w) now] ≤
          if w.count < limit.limit then 1 else 0 :=
        allowedWithin_one (allowed_of_fits hopens hfits)
      rw [hit_of_fits hopens hfits]
      simp only [left]
      split at hone <;> omega

/-- In an interval that has begun, the hits of a key are allowed what is left. -/
theorem allowedWithin_le_left {nows : List Nat} {w : Option Window}
    (hclock : nows.Pairwise (· ≤ ·)) (hbegun : ∀ now ∈ nows, a ≤ now)
    (hfits : ∀ e ∈ windowLog checks limit key nows w, e.overflows = false) :
    allowedWithin a limit.window (windowLog checks limit key nows w) ≤ left limit.limit a w := by
  induction nows generalizing w with
  | nil => exact Nat.zero_le _
  | cons now nows ih =>
    obtain ⟨hfirst, hclock⟩ := List.pairwise_cons.mp hclock
    obtain ⟨hnow, hbegun⟩ := List.forall_mem_cons.mp hbegun
    obtain ⟨hflag, hfits⟩ := List.forall_mem_cons.mp hfits
    by_cases hover : now < a + limit.window
    · rw [windowLog, allowedWithin_cons]
      have hstep := step_allowedWithin hnow hover hflag
      have hrest := ih hclock hbegun hfits
      omega
    · rw [allowedWithin_of_outside]
      · exact Nat.zero_le _
      · intro e he
        refine Or.inr ((Nat.not_lt.mp hover).trans ?_)
        rcases List.mem_cons.mp (now_of_mem_windowLog he) with heq | hmem
        · exact heq ▸ le_rfl
        · exact hfirst e.now hmem

/-- In any interval as long as its window, a key is allowed at most two windows. -/
theorem allowedWithin_le {nows : List Nat} {w : Option Window} (hclock : nows.Pairwise (· ≤ ·))
    (hfits : ∀ e ∈ windowLog checks limit key nows w, e.overflows = false) :
    allowedWithin a limit.window (windowLog checks limit key nows w) ≤ 2 * limit.limit := by
  induction nows generalizing w with
  | nil => exact Nat.zero_le _
  | cons now nows ih =>
    obtain ⟨hfirst, hlater⟩ := List.pairwise_cons.mp hclock
    by_cases hbefore : now < a
    · -- the interval has not begun: the hit is not counted
      obtain ⟨-, hfits⟩ := List.forall_mem_cons.mp hfits
      rw [windowLog, allowedWithin_cons, allowedWithin_of_outside, Nat.zero_add]
      · exact ih hlater hfits
      · intro e he
        obtain rfl := List.mem_singleton.mp he
        exact Or.inl hbefore
    · have hbegun : ∀ n ∈ now :: nows, a ≤ n :=
        List.forall_mem_cons.mpr ⟨Nat.not_lt.mp hbefore, fun n hn =>
          (Nat.not_lt.mp hbefore).trans (hfirst n hn)⟩
      exact (allowedWithin_le_left hclock hbegun hfits).trans (left_le _ a w)

end Interval

/-! ## The guarantees of the store -/

/-- **What the store promises for a run** of hits, each key under its own limit. -/
structure StoreWindows (checks : Bool) (limits : String → Throttle) (default : Throttle)
    (hs : List Hit) : Prop where
  /-- In each window the hits up to the limit are allowed, and no others; none panics. -/
  first : ∀ key o ws, InWindow (logOf checks limits default hs key) o ws →
    (o :: ws).map Entry.allowed =
      (List.range (o :: ws).length).map fun i => some (decide (i < (limits key).limit))
  /-- A window is opened at least the length of a window after the one before. -/
  apart : ∀ key o ws o', InWindow (logOf checks limits default hs key) o ws →
    o :: (ws ++ [o']) <:+: logOf checks limits default hs key → o'.opened = true →
      (limits key).window ≤ o'.now - o.now
  retry : ∀ key, ∀ e ∈ logOf checks limits default hs key, ∀ d, e.decision = some d →
    d.allowed = false → d.retryAfter ≤ (limits key).window
  /-- A key's hits do what they would do among any other keys' hits. -/
  isolated : ∀ key hs', readings hs' key = readings hs key →
    logOf checks limits default hs' key = logOf checks limits default hs key
  /-- If the clock does not go back, a key is allowed at most two windows in the length of one. -/
  sliding : ∀ key, (readings hs key).Pairwise (· ≤ ·) → ∀ a,
    allowedWithin a (limits key).window (logOf checks limits default hs key) ≤
      2 * (limits key).limit

section Store

variable {checks : Bool} {limit : Throttle} {key : String}

theorem retryAfter_le {nows : List Nat} {w : Option Window} {e : Entry}
    (he : e ∈ windowLog checks limit key nows w) {d : Decision} (hd : e.decision = some d) :
    d.retryAfter ≤ limit.window := by
  induction nows generalizing w with
  | nil => exact absurd he List.not_mem_nil
  | cons now nows ih =>
    rcases List.mem_cons.mp he with rfl | he
    · have hhit : (Window.hit checks limit w now).1 = some d := hd
      unfold Window.hit at hhit
      simp only at hhit
      split at hhit
      · obtain rfl := Option.some.inj hhit
        unfold Window.decision
        split
        · exact Nat.sub_le _ _
        · exact Nat.zero_le _
      · cases hhit
    · exact ih he

/-- A window of the log is over when its length has passed. -/
theorem window_apart {nows : List Nat} {o o' : Entry} {ws : List Entry}
    (hclosed : ∀ e ∈ ws, e.opened = false) (hopened : o.opened = true)
    (hnext : o'.opened = true) (hfew : (o :: ws).length < 2 ^ 32)
    (h : o :: (ws ++ [o']) <:+: windowLog checks limit key nows none) :
    limit.window ≤ o'.now - o.now := by
  obtain ⟨before, after, hlog⟩ := h
  have hsplit : windowLog checks limit key nows none = before ++ o :: (ws ++ o' :: after) := by
    rw [← hlog]
    simp
  obtain ⟨pre, now, post, -, -, ho, hrest⟩ := windowLog_split hsplit
  have hopens : opens limit (windowAfter checks limit pre none) now = true := by
    rw [ho] at hopened
    exact hopened
  rw [hit_of_opens hopens] at hrest
  subst ho
  rw [List.length_cons] at hfew
  obtain ⟨-, -, later, hlater⟩ := closed_run hrest.symm hclosed (by omega)
  cases later with
  | nil => exact nomatch hlater
  | cons now' later =>
    obtain ⟨rfl, -⟩ := List.cons.inj hlater
    exact of_decide_eq_true hnext

end Store

/-- **The fixed-window limiter.** In every run of hits, with clock readings in any order, in which
no window gets `2 ^ 32` hits: in each window exactly the hits up to the limit are allowed,
consecutive windows are a window's length apart, no `retry_after` exceeds it, keys do not touch each
other, and, if the clock does not go back, no interval as long as a window has more than twice the
limit allowed. -/
theorem store_windows (checks : Bool) (limits : String → Throttle) (default : Throttle)
    (hs : List Hit) (hfew : ∀ key, FewHits (logOf checks limits default hs key)) :
    StoreWindows checks limits default hs where
  first key o ws hwindow := by
    have hlength := hfew key o ws hwindow
    rw [logOf_eq] at hwindow
    exact (window_run hwindow hlength).2
  apart key o ws o' hwindow hnext hopened := by
    have hlength := hfew key o ws hwindow
    rw [logOf_eq] at hnext
    exact window_apart hwindow.closed hwindow.opened hopened hlength hnext
  retry key e he d hd _ := by
    rw [logOf_eq] at he
    exact retryAfter_le he hd
  isolated key hs' h := by
    rw [logOf_eq, logOf_eq, h]
  sliding key hclock a := by
    have hcounter := hfew key
    rw [logOf_eq] at hcounter ⊢
    exact allowedWithin_le hclock (counterHolds_of_fewHits hcounter).fits

/-- A run of fewer than `2 ^ 32` hits has no window with more. -/
theorem fewHits_of_length {checks : Bool} {limits : String → Throttle} {default : Throttle}
    {hs : List Hit} (h : hs.length < 2 ^ 32) (key : String) :
    FewHits (logOf checks limits default hs key) := by
  intro o ws hwindow
  rw [logOf_eq] at hwindow
  have hle := hwindow.within.length_le
  rw [length_windowLog, readings, List.length_map] at hle
  exact lt_of_le_of_lt (hle.trans (List.length_filter_le _ hs)) h

/-- Three hits within a minute and one an hour later, with a reading that comes late. -/
theorem late_reading_windows :
    StoreWindows true (fun _ => oneInAMinute) oneInAMinute
      [⟨"a", 10 ^ 9⟩, ⟨"b", 0⟩, ⟨"a", 0⟩, ⟨"a", 3600 * 10 ^ 9⟩] :=
  store_windows true (fun _ => oneInAMinute) oneInAMinute
    [⟨"a", 10 ^ 9⟩, ⟨"b", 0⟩, ⟨"a", 0⟩, ⟨"a", 3600 * 10 ^ 9⟩]
    (fewHits_of_length (by decide))

end Nestrs.Throttler
