import Mathlib.Algebra.Group.Nat.Defs
import Mathlib.Data.List.Basic
import Mathlib.Data.Nat.Basic

/-!
# The throttler

Model of `crates/nestrs-throttler`: the limit (`throttle.rs`), the store with its fixed-window
counters (`store.rs`) and the guard of a route (`guard.rs`). Time is in nanoseconds; a `u32` counter
is a number below `2 ^ 32` that wraps.

The store keeps one window for each client, not for each route. A hit resets it by the test of its
own route's window: a route with a short window reopens the window that a route with a longer one is
counting in. What a client gets past a route is therefore not bounded by that route's limit alone.

Results:
* `hit_cases`: what one hit does to the client's window;
* **`fixed_window_bound`**: in a run in which no hit reopens the client's window before `W` has
  passed since it was opened, a route of limit `L` and window `W` lets at most `2 * L` requests
  through in any interval shorter than `W`;
* `reopensLate_of_windows`: no hit does where every route has a window of at least `W`.
-/

namespace Nestrs.Throttler

/-! ## The store -/

/-- `Throttle`: at most `limit` requests per `window`, per client. -/
structure Throttle where
  limit : Nat
  window : Nat
deriving DecidableEq, Repr

/-- `Throttle::per_minute`. -/
def Throttle.perMinute (limit : Nat) : Throttle := ⟨limit, 60 * 10 ^ 9⟩

/-- `Throttle::per_second`. -/
def Throttle.perSecond (limit : Nat) : Throttle := ⟨limit, 10 ^ 9⟩

/-- `Decision`. -/
structure Decision where
  allowed : Bool
  retryAfter : Nat

/-- `Window`. -/
structure Window where
  start : Nat
  count : Nat

/-- `InMemoryThrottler`. -/
structure InMemoryThrottler where
  default : Throttle
  windows : String → Option Window

/-- `InMemoryThrottler::new`. -/
def InMemoryThrottler.new (default : Throttle) : InMemoryThrottler := ⟨default, fun _ => none⟩

/-- The window as a hit of this limit finds it: reopened once it has elapsed. -/
def Window.refresh (w : Window) (limit : Throttle) (now : Nat) : Window :=
  if limit.window ≤ now - w.start then ⟨now, 0⟩ else w

/-- `window.count += 1`. -/
def Window.bump (w : Window) : Window := { w with count := (w.count + 1) % 2 ^ 32 }

/-- The window a hit leaves: opened by the first one, reopened once it has elapsed. -/
def InMemoryThrottler.hitWindow (t : InMemoryThrottler) (key : String) (limit : Throttle)
    (now : Nat) : Window :=
  (((t.windows key).getD ⟨now, 0⟩).refresh limit now).bump

/-- `InMemoryThrottler::hit`. -/
def InMemoryThrottler.hit (t : InMemoryThrottler) (key : String) (limit : Throttle) (now : Nat) :
    Decision × InMemoryThrottler :=
  let window := t.hitWindow key limit now
  let decision :=
    if limit.limit < window.count then ⟨false, limit.window - (now - window.start)⟩ else ⟨true, 0⟩
  (decision, { t with windows := fun k => if k = key then some window else t.windows k })

/-! ## The guard -/

/-- What `client_key` reads of a request: the `X-Forwarded-For` header, if it is there and
printable, and the peer's IP, if it has one. -/
structure Client where
  forwardedFor : Option String
  remoteIp : Option String

/-- `str::trim`, of a printable header. -/
def trim (s : List Char) : List Char :=
  ((s.dropWhile Char.isWhitespace).reverse.dropWhile Char.isWhitespace).reverse

/-- The first hop of the chain, if it is not blank. -/
def firstHop (chain : String) : Option String :=
  let hop := trim (chain.toList.takeWhile fun c => c ≠ ',')
  if hop.isEmpty then none else some (String.ofList hop)

/-- `client_key`. -/
def clientKey (client : Client) : String :=
  match client.forwardedFor.bind firstHop with
  | some forwarded => forwarded
  | none => client.remoteIp.getD "global"

/-- The response of a refused request. -/
structure Refused where
  status : Nat
  retryAfter : String
  body : String
deriving DecidableEq, Repr

/-- `ThrottlerGuard::check`, on a route with this metadata. -/
def check (t : InMemoryThrottler) (metadata : Option Throttle) (client : Client) (now : Nat) :
    Except Refused Unit × InMemoryThrottler :=
  let limit := metadata.getD t.default
  let (decision, t) := t.hit (clientKey client) limit now
  if decision.allowed then (.ok (), t)
  else (.error ⟨429, toString (decision.retryAfter / 10 ^ 9), "Too Many Requests"⟩, t)

/-! ## Runs -/

/-- A request to a guarded route, at the clock reading of its hit. -/
structure Arrival (R : Type) where
  route : R
  client : Client
  now : Nat

variable {R : Type} (routes : R → Option Throttle)

/-- One request. -/
def serve (t : InMemoryThrottler) (x : Arrival R) : Except Refused Unit × InMemoryThrottler :=
  check t (routes x.route) x.client x.now

/-- The requests of a run, each with whether it got past the guard. -/
def outcomes : List (Arrival R) → InMemoryThrottler → List (Arrival R × Bool)
  | [], _ => []
  | x :: xs, t => (x, (serve routes t x).1.isOk) :: outcomes xs (serve routes t x).2

/-- Every step of the run, with the state before it, is such. -/
def Along (P : InMemoryThrottler → Arrival R → Prop) : List (Arrival R) → InMemoryThrottler → Prop
  | [], _ => True
  | x :: xs, t => P t x ∧ Along P xs (serve routes t x).2

/-- The limit of a route. -/
def limitOf (default : Throttle) (route : R) : Throttle := (routes route).getD default

/-- The requests to a route that a client gets past the guard in an interval. -/
def allowedIn (route : R) [DecidableEq R] (key : String) (a b : Nat)
    (os : List (Arrival R × Bool)) : Nat :=
  os.countP fun o => o.2 && o.1.route = route && clientKey o.1.client = key &&
    a ≤ o.1.now && o.1.now ≤ b

/-- **The fixed-window guarantee** of a route: at most twice its limit in any interval shorter than
its window. -/
def FixedWindow [DecidableEq R] (default : Throttle) (route : R) (key : String)
    (xs : List (Arrival R)) : Prop :=
  ∀ a b, b - a < (limitOf routes default route).window →
    allowedIn route key a b (outcomes routes xs (InMemoryThrottler.new default)) ≤
      2 * (limitOf routes default route).limit

/-- The hit does not bring its client's counter to `2 ^ 32`. -/
def Counted (key : String) (t : InMemoryThrottler) (x : Arrival R) : Prop :=
  clientKey x.client = key → ∀ w, t.windows key = some w →
    (w.refresh (limitOf routes t.default x.route) x.now).count + 1 < 2 ^ 32

/-- The hit does not reopen its client's window before `W` has passed since it was opened. -/
def ReopensLate (key : String) (W : Nat) (t : InMemoryThrottler) (x : Arrival R) : Prop :=
  clientKey x.client = key → ∀ w, t.windows key = some w →
    (limitOf routes t.default x.route).window ≤ x.now - w.start → W ≤ x.now - w.start

/-! ## One hit -/

section Hit

variable {routes} {t : InMemoryThrottler} {x : Arrival R} {key : String}

theorem default_serve (t : InMemoryThrottler) (x : Arrival R) :
    (serve routes t x).2.default = t.default := by
  unfold serve check
  simp only
  split
  · rfl
  · rfl

/-- A hit of another client leaves the window as it is. -/
theorem windows_serve_of_ne (h : clientKey x.client ≠ key) :
    (serve routes t x).2.windows key = t.windows key := by
  unfold serve check
  simp only
  split
  · exact if_neg (Ne.symm h)
  · exact if_neg (Ne.symm h)

theorem windows_serve_of_eq (h : clientKey x.client = key) :
    (serve routes t x).2.windows key =
      some (t.hitWindow key (limitOf routes t.default x.route) x.now) := by
  subst h
  unfold serve check
  simp only
  split
  · exact if_pos rfl
  · exact if_pos rfl

theorem allowed_hit {limit : Throttle} {now : Nat} :
    (t.hit key limit now).1.allowed = true ↔ (t.hitWindow key limit now).count ≤ limit.limit := by
  unfold InMemoryThrottler.hit
  simp only
  by_cases hlimit : limit.limit < (t.hitWindow key limit now).count
  · rw [if_pos hlimit]
    exact ⟨fun hok => absurd hok Bool.false_ne_true, fun hle => absurd hlimit (Nat.not_lt.mpr hle)⟩
  · rw [if_neg hlimit]
    exact ⟨fun _ => Nat.not_lt.mp hlimit, fun _ => rfl⟩

/-- A request gets past the guard iff the counter is within the limit of its route. -/
theorem isOk_serve (h : clientKey x.client = key) :
    (serve routes t x).1.isOk = true ↔
      (t.hitWindow key (limitOf routes t.default x.route) x.now).count ≤
        (limitOf routes t.default x.route).limit := by
  subst h
  rw [← allowed_hit]
  unfold serve check limitOf
  simp only
  split
  · rename_i hallowed
    exact ⟨fun _ => hallowed, fun _ => rfl⟩
  · rename_i hdenied
    exact ⟨fun hok => absurd hok Bool.false_ne_true, fun hallowed => absurd hallowed hdenied⟩

/-- **What one hit does to its client's window**: it opens or reopens the window with a count of
one, or adds one to its count. -/
theorem hit_cases {limit : Throttle} {now : Nat}
    (hcount : ∀ w, t.windows key = some w → (w.refresh limit now).count + 1 < 2 ^ 32) :
    (t.windows key = none ∧ t.hitWindow key limit now = ⟨now, 1⟩) ∨
      (∃ w, t.windows key = some w ∧ limit.window ≤ now - w.start ∧
        t.hitWindow key limit now = ⟨now, 1⟩) ∨
      ∃ w, t.windows key = some w ∧ now - w.start < limit.window ∧
        t.hitWindow key limit now = ⟨w.start, w.count + 1⟩ := by
  unfold InMemoryThrottler.hitWindow
  cases hw : t.windows key with
  | none =>
    refine Or.inl ⟨rfl, ?_⟩
    unfold Window.refresh Window.bump
    split
    · rfl
    · rfl
  | some w =>
    refine Or.inr ?_
    have hsmall := hcount w hw
    rw [Option.getD_some]
    unfold Window.refresh at hsmall ⊢
    by_cases helapsed : limit.window ≤ now - w.start
    · rw [if_pos helapsed]
      exact Or.inl ⟨w, rfl, helapsed, rfl⟩
    · rw [if_neg helapsed] at hsmall ⊢
      refine Or.inr ⟨w, rfl, Nat.lt_of_not_le helapsed, ?_⟩
      unfold Window.bump
      rw [Nat.mod_eq_of_lt hsmall]

end Hit

/-! ## The bound -/

section Bound

variable {routes} [DecidableEq R] {route : R} {key : String} {a b : Nat}

/-- What the client can still get past the route in an interval that has begun: the rest of the
window it is in, and one window more if that one was opened before the interval. -/
def left (L a : Nat) : Option Window → Nat
  | none => L
  | some w => (L - w.count) + if w.start < a then L else 0

theorem left_le (L a : Nat) (w : Option Window) : left L a w ≤ 2 * L := by
  cases w with
  | none =>
    show L ≤ 2 * L
    omega
  | some w =>
    unfold left
    simp only
    split
    · omega
    · omega

omit [DecidableEq R] in
theorem mem_of_mem_outcomes {xs : List (Arrival R)} {t : InMemoryThrottler}
    {o : Arrival R × Bool} (h : o ∈ outcomes routes xs t) : o.1 ∈ xs := by
  induction xs generalizing t with
  | nil => exact absurd h List.not_mem_nil
  | cons x xs ih =>
    unfold outcomes at h
    rcases List.mem_cons.mp h with rfl | h
    · exact List.mem_cons_self
    · exact List.mem_cons_of_mem _ (ih h)

/-- After the interval nothing is counted. -/
theorem allowedIn_of_after {xs : List (Arrival R)} {t : InMemoryThrottler}
    (h : ∀ x ∈ xs, b < x.now) : allowedIn route key a b (outcomes routes xs t) = 0 := by
  unfold allowedIn
  rw [List.countP_eq_zero]
  intro o ho
  have hlate := h o.1 (mem_of_mem_outcomes ho)
  simp only [Bool.and_eq_true, decide_eq_true_eq, not_and, Nat.not_le]
  exact fun _ => hlate

/-- One request of a run that has reached the interval: it is past the interval, or what it adds is
taken from what was left. -/
theorem step_left (route : R) {t : InMemoryThrottler} {x : Arrival R} {W : Nat} (hab : b - a < W)
    (hcount : Counted routes key t x) (hlate : ReopensLate routes key W t x)
    (hnow : a ≤ x.now) :
    b < x.now ∨
      allowedIn route key a b [(x, (serve routes t x).1.isOk)] +
          left (limitOf routes t.default route).limit a ((serve routes t x).2.windows key) ≤
        left (limitOf routes t.default route).limit a (t.windows key) := by
  by_cases hkey : clientKey x.client = key
  · -- the hit counts at most once, and only within the limit of the route
    have hone : allowedIn route key a b [(x, (serve routes t x).1.isOk)] ≤ 1 ∧
        (allowedIn route key a b [(x, (serve routes t x).1.isOk)] = 1 →
          (t.hitWindow key (limitOf routes t.default x.route) x.now).count ≤
            (limitOf routes t.default route).limit) := by
      refine ⟨List.countP_le_length, fun hcounted => ?_⟩
      have hpos : 0 < allowedIn route key a b [(x, (serve routes t x).1.isOk)] := by omega
      obtain ⟨o, ho, hcond⟩ := List.countP_pos_iff.mp hpos
      obtain rfl := List.mem_singleton.mp ho
      simp only [Bool.and_eq_true, decide_eq_true_eq] at hcond
      obtain ⟨⟨⟨⟨hok, hroute⟩, -⟩, -⟩, -⟩ := hcond
      rw [← hroute]
      exact (isOk_serve hkey).mp hok
    obtain ⟨hle, hlimit⟩ := hone
    rw [windows_serve_of_eq hkey]
    rcases hit_cases (hcount hkey) with ⟨hw, hnew⟩ | ⟨w, hw, helapsed, hnew⟩ | ⟨w, hw, -, hnew⟩
    · refine Or.inr ?_
      rw [hnew] at hlimit ⊢
      rw [hw]
      simp only [left, if_neg (Nat.not_lt.mpr hnow)] at hlimit ⊢
      omega
    · have hreopened : W ≤ x.now - w.start := hlate hkey w hw helapsed
      rw [hnew] at hlimit ⊢
      rw [hw]
      by_cases hstart : w.start < a
      · refine Or.inr ?_
        simp only [left, if_neg (Nat.not_lt.mpr hnow), if_pos hstart] at hlimit ⊢
        omega
      · exact Or.inl (by omega)
    · refine Or.inr ?_
      rw [hnew] at hlimit ⊢
      rw [hw]
      simp only [left] at hlimit ⊢
      omega
  · refine Or.inr ?_
    have hnone : allowedIn route key a b [(x, (serve routes t x).1.isOk)] = 0 := by
      unfold allowedIn
      rw [List.countP_eq_zero]
      intro o ho
      obtain rfl := List.mem_singleton.mp ho
      simp [hkey]
    rw [hnone, windows_serve_of_ne hkey]
    omega

theorem allowedIn_cons (o : Arrival R × Bool) (os : List (Arrival R × Bool)) :
    allowedIn route key a b (o :: os) =
      allowedIn route key a b [o] + allowedIn route key a b os := by
  unfold allowedIn
  rw [show o :: os = [o] ++ os from rfl, List.countP_append]

/-- In an interval that has begun, a client gets past the route what is left. -/
theorem allowedIn_le_left {xs : List (Arrival R)} {t : InMemoryThrottler} {W : Nat}
    (hab : b - a < W) (hclock : xs.Pairwise fun x y => x.now ≤ y.now)
    (hcount : Along routes (Counted routes key) xs t)
    (hlate : Along routes (ReopensLate routes key W) xs t) (hnow : ∀ x ∈ xs, a ≤ x.now) :
    allowedIn route key a b (outcomes routes xs t) ≤
      left (limitOf routes t.default route).limit a (t.windows key) := by
  induction xs generalizing t with
  | nil => exact Nat.zero_le _
  | cons x xs ih =>
    obtain ⟨hfirst, hclock⟩ := List.pairwise_cons.mp hclock
    rcases step_left route hab hcount.1 hlate.1 (hnow x List.mem_cons_self) with hafter | hstep
    · rw [allowedIn_of_after]
      · exact Nat.zero_le _
      · intro y hy
        rcases List.mem_cons.mp hy with rfl | hy
        · exact hafter
        · exact lt_of_lt_of_le hafter (hfirst y hy)
    · rw [outcomes, allowedIn_cons]
      have hrest := ih hclock hcount.2 hlate.2 fun y hy => hnow y (List.mem_cons_of_mem x hy)
      rw [default_serve] at hrest
      omega

/-- In any interval shorter than `W`, a client gets past the route at most two windows. -/
theorem allowedIn_le {xs : List (Arrival R)} {t : InMemoryThrottler} {W : Nat}
    (hab : b - a < W) (hclock : xs.Pairwise fun x y => x.now ≤ y.now)
    (hcount : Along routes (Counted routes key) xs t)
    (hlate : Along routes (ReopensLate routes key W) xs t) :
    allowedIn route key a b (outcomes routes xs t) ≤
      2 * (limitOf routes t.default route).limit := by
  induction xs generalizing t with
  | nil => exact Nat.zero_le _
  | cons x xs ih =>
    by_cases hbefore : x.now < a
    · -- the interval has not begun: the request is not counted
      obtain ⟨-, hclock⟩ := List.pairwise_cons.mp hclock
      have hnone : allowedIn route key a b [(x, (serve routes t x).1.isOk)] = 0 := by
        unfold allowedIn
        rw [List.countP_eq_zero]
        intro o ho
        obtain rfl := List.mem_singleton.mp ho
        simp [Nat.not_le.mpr hbefore]
      have hrest := ih hclock hcount.2 hlate.2
      rw [default_serve] at hrest
      rw [outcomes, allowedIn_cons, hnone, Nat.zero_add]
      exact hrest
    · obtain ⟨hfirst, -⟩ := List.pairwise_cons.mp hclock
      have hnow : ∀ y ∈ x :: xs, a ≤ y.now := by
        intro y hy
        rcases List.mem_cons.mp hy with rfl | hy
        · omega
        · have hlater := hfirst y hy
          omega
      exact le_trans (allowedIn_le_left hab hclock hcount hlate hnow) (left_le _ a _)

end Bound

/-- **The fixed-window guarantee, route by route.** In a run with a clock that does not go back and
fewer than `2 ^ 32` hits in a window, in which no hit reopens the client's window before the route's
own window has passed since it was opened, the route lets at most twice its limit through in any
interval shorter than its window, whatever the client does on the other routes. -/
theorem fixed_window_bound [DecidableEq R] (default : Throttle) (route : R) (key : String)
    (xs : List (Arrival R)) (hclock : xs.Pairwise fun x y => x.now ≤ y.now)
    (hcount : Along routes (Counted routes key) xs (InMemoryThrottler.new default))
    (hlate : Along routes (ReopensLate routes key (limitOf routes default route).window) xs
      (InMemoryThrottler.new default)) :
    FixedWindow routes default route key xs :=
  fun _ _ hab => allowedIn_le hab hclock hcount hlate

/-- Where every route has a window of at least `W`, no hit reopens a window before. -/
theorem reopensLate_of_windows {routes : R → Option Throttle} {default : Throttle} {W : Nat}
    (h : ∀ route, W ≤ (limitOf routes default route).window) (key : String)
    (xs : List (Arrival R)) {t : InMemoryThrottler} (ht : t.default = default) :
    Along routes (ReopensLate routes key W) xs t := by
  induction xs generalizing t with
  | nil => trivial
  | cons x xs ih =>
    refine ⟨fun _ w _ helapsed => ?_, ih ((default_serve t x).trans ht)⟩
    rw [ht] at helapsed
    exact le_trans (h x.route) helapsed

theorem counted_of_count {routes : R → Option Throttle} {key : String} {xs : List (Arrival R)}
    {t : InMemoryThrottler} (hlength : xs.length < 2 ^ 32)
    (h : ∀ w, t.windows key = some w → w.count + xs.length < 2 ^ 32) :
    Along routes (Counted routes key) xs t := by
  induction xs generalizing t with
  | nil => trivial
  | cons x xs ih =>
    rw [List.length_cons] at hlength h
    have hcount : Counted routes key t x := by
      intro _ w hw
      have hsmall := h w hw
      unfold Window.refresh
      split
      · show 0 + 1 < 2 ^ 32
        omega
      · omega
    refine ⟨hcount, ih (by omega) fun w hw => ?_⟩
    by_cases hkey : clientKey x.client = key
    · rw [windows_serve_of_eq hkey] at hw
      cases hw
      rcases hit_cases (hcount hkey) with ⟨-, hnew⟩ | ⟨w, -, -, hnew⟩ | ⟨w, hw, -, hnew⟩
      · rw [hnew]
        simp only
        omega
      · rw [hnew]
        simp only
        omega
      · have hsmall := h w hw
        rw [hnew]
        simp only
        omega
    · rw [windows_serve_of_ne hkey] at hw
      have hsmall := h w hw
      omega

/-- A run of fewer than `2 ^ 32` requests has fewer than `2 ^ 32` hits in a window. -/
theorem counted_of_length {routes : R → Option Throttle} {default : Throttle}
    {xs : List (Arrival R)} (hlength : xs.length < 2 ^ 32) (key : String) :
    Along routes (Counted routes key) xs (InMemoryThrottler.new default) := by
  refine counted_of_count hlength fun w hw => ?_
  cases hw

/-! ## A login route and a feed

A client of an API with two throttled routes: logins, five in a minute, and a feed, ten in a
second. -/

inductive ApiRoute where
  | login
  | feed
deriving DecidableEq

def apiRoutes : ApiRoute → Option Throttle
  | .login => some (.perMinute 5)
  | .feed => some (.perSecond 10)

/-- A request of the one client, at a full second. -/
def atSecond (route : ApiRoute) (s : Nat) : Arrival ApiRoute :=
  ⟨route, ⟨none, some "203.0.113.7"⟩, s * 10 ^ 9⟩

/-- Four logins a second, after a look at the feed. -/
def attempts : List (Arrival ApiRoute) :=
  (List.range 3).flatMap fun s =>
    atSecond .feed s :: List.replicate 4 (atSecond .login s)

/-- Without the feed's short window, the guarantee holds. -/
theorem attempts_bounded :
    FixedWindow (fun _ => some (.perMinute 5)) (.perMinute 60) .login "203.0.113.7" attempts :=
  fixed_window_bound _ (.perMinute 60) .login "203.0.113.7" attempts (by decide)
    (counted_of_length (by decide) "203.0.113.7")
    (reopensLate_of_windows (fun _ => le_refl _) "203.0.113.7" attempts rfl)

/-- The feed reopens the window that the logins are counted in: twelve logins in two seconds. -/
theorem attempts_exceed_limit :
    (attempts.Pairwise fun x y => x.now ≤ y.now) ∧
      Along apiRoutes (Counted apiRoutes "203.0.113.7") attempts
        (InMemoryThrottler.new (.perMinute 60)) ∧
      ¬ FixedWindow apiRoutes (.perMinute 60) .login "203.0.113.7" attempts := by
  refine ⟨by decide, counted_of_length (by decide) "203.0.113.7", fun h => ?_⟩
  exact absurd (h 0 (2 * 10 ^ 9) (by decide)) (by decide)

end Nestrs.Throttler
