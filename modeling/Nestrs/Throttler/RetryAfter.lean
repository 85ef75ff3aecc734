import Nestrs.Throttler.Guard

/-!
# The `Retry-After` header

What `ThrottlerGuard::check` (`crates/nestrs-throttler/src/guard.rs`) tells a client it rejects. The
store's `retry_after` is the time left in the client's window; the header has it in whole seconds,
which `as_secs` rounds down. A client that comes back when the header says is therefore early,
unless the time left is a whole number of seconds.

A hit may reach the lock with a reading from before its window was opened. The time left is then
taken to be the whole window, which is also too short.

Results:
* `serve_rejected`: what a rejection says, and what it leaves;
* **`retry_after_honest_iff`**: when a client is let through from the time its header says.
-/

namespace Nestrs.Throttler

variable {R : Type} {routes : R → Option Throttle} {default limit : Throttle}

/-- The state after requests. -/
def after (routes : R → Option Throttle) (xs : List (Arrival R)) (t : InMemoryThrottler) :
    InMemoryThrottler :=
  xs.foldl (fun t x => (serve routes t x).2) t

/-- The header of a rejection is honest: from as many seconds later as it says, with no request of
the client in between, the client's next request is let through. -/
def HonestRetryAfter (routes : R → Option Throttle) (t : InMemoryThrottler) (x : Arrival R) :
    Prop :=
  ∀ refused, (serve routes t x).1 = .error refused →
    ∀ seconds : Nat, refused.retryAfter = toString seconds →
      ∀ others next, (∀ y ∈ others, clientKey y.client ≠ clientKey x.client) →
        clientKey next.client = clientKey x.client → x.now + seconds * 10 ^ 9 ≤ next.now →
          (serve routes (after routes others (serve routes t x).2) next).1.isOk = true

/-! ## The client's window -/

theorem default_after (xs : List (Arrival R)) (t : InMemoryThrottler) :
    (after routes xs t).default = t.default := by
  induction xs generalizing t with
  | nil => rfl
  | cons x xs ih => exact (ih _).trans (default_serve t x)

theorem windows_after_of_ne {key : String} {xs : List (Arrival R)}
    (h : ∀ x ∈ xs, clientKey x.client ≠ key) (t : InMemoryThrottler) :
    (after routes xs t).windows key = t.windows key := by
  induction xs generalizing t with
  | nil => rfl
  | cons x xs ih =>
    obtain ⟨hx, hxs⟩ := List.forall_mem_cons.mp h
    exact (ih hxs _).trans (windows_serve_of_ne hx)

theorem count_hitWindow_lt (t : InMemoryThrottler) (key : String) (limit : Throttle) (now : Nat) :
    (t.hitWindow key limit now).count < 2 ^ 32 :=
  Nat.mod_lt _ (Nat.two_pow_pos 32)

/-- A counter is a `u32` at any time. -/
theorem count_after_lt {key : String} {xs : List (Arrival R)} {t : InMemoryThrottler}
    (ht : ∀ w, t.windows key = some w → w.count < 2 ^ 32) {w : Window}
    (hw : (after routes xs t).windows key = some w) : w.count < 2 ^ 32 := by
  induction xs generalizing t with
  | nil => exact ht w hw
  | cons x xs ih =>
    refine ih (fun w hw => ?_) hw
    by_cases hkey : clientKey x.client = key
    · rw [windows_serve_of_eq hkey] at hw
      obtain rfl := Option.some.inj hw
      exact count_hitWindow_lt t key _ x.now
    · rw [windows_serve_of_ne hkey] at hw
      exact ht w hw

/-- A hit before the window has elapsed is counted in it. -/
theorem hitWindow_of_lt {t : InMemoryThrottler} {key : String} {w : Window} {now : Nat}
    (hw : t.windows key = some w) (hlt : now - w.start < limit.window) :
    t.hitWindow key limit now = ⟨w.start, (w.count + 1) % 2 ^ 32⟩ := by
  unfold InMemoryThrottler.hitWindow Window.refresh
  rw [hw, Option.getD_some, if_neg (Nat.not_le.mpr hlt)]
  rfl

/-- A later one opens another. -/
theorem hitWindow_of_le {t : InMemoryThrottler} {key : String} {w : Window} {now : Nat}
    (hw : t.windows key = some w) (hle : limit.window ≤ now - w.start) :
    t.hitWindow key limit now = ⟨now, 1⟩ := by
  unfold InMemoryThrottler.hitWindow Window.refresh
  rw [hw, Option.getD_some, if_pos hle]
  rfl

theorem hitWindow_of_none {t : InMemoryThrottler} {key : String} {now : Nat}
    (hw : t.windows key = none) : t.hitWindow key limit now = ⟨now, 1⟩ := by
  unfold InMemoryThrottler.hitWindow Window.refresh
  rw [hw, Option.getD_none, ite_self]
  rfl

/-- **A rejection**, under a limit of at least one: the client has a window, not over and full; the
header says how long it is still open, and the counter goes on. -/
theorem serve_rejected {t : InMemoryThrottler} {x : Arrival R}
    (hlimit : limitOf routes t.default x.route = limit) (hone : 1 ≤ limit.limit)
    (hcount : ∀ w, t.windows (clientKey x.client) = some w → w.count < 2 ^ 32)
    (hrejected : (serve routes t x).1.isOk = false) :
    ∃ w, t.windows (clientKey x.client) = some w ∧ x.now - w.start < limit.window ∧
      limit.limit < w.count + 1 ∧ w.count + 1 < 2 ^ 32 ∧
      (serve routes t x).1 = .error
        ⟨429, toString ((limit.window - (x.now - w.start)) / 10 ^ 9), "Too Many Requests"⟩ ∧
      (serve routes t x).2.windows (clientKey x.client) = some ⟨w.start, w.count + 1⟩ := by
  have hover : ¬ (t.hitWindow (clientKey x.client) limit x.now).count ≤ limit.limit := by
    intro hle
    rw [← hlimit] at hle
    rw [(isOk_serve rfl).mpr hle] at hrejected
    cases hrejected
  cases hw : t.windows (clientKey x.client) with
  | none =>
    rw [hitWindow_of_none hw] at hover
    exact absurd hone hover
  | some w =>
    by_cases hlt : x.now - w.start < limit.window
    · have hwindow := hitWindow_of_lt hw hlt
      rw [hwindow, Nat.not_le] at hover
      -- a counter that wrapped would be zero
      have hfits : w.count + 1 < 2 ^ 32 := by
        rcases Nat.lt_or_eq_of_le (Nat.succ_le_of_lt (hcount w hw)) with hlt | heq
        · exact hlt
        · rw [show w.count + 1 = 2 ^ 32 from heq, Nat.mod_self] at hover
          exact absurd hover (Nat.not_lt_zero _)
      rw [Nat.mod_eq_of_lt hfits] at hwindow hover
      refine ⟨w, rfl, hlt, hover, hfits, ?_, ?_⟩
      · unfold serve check InMemoryThrottler.hit
        unfold limitOf at hlimit
        simp only [hlimit, hwindow, if_pos hover]
        rfl
      · rw [windows_serve_of_eq rfl, hlimit, hwindow]
    · rw [hitWindow_of_le hw (Nat.not_lt.mp hlt)] at hover
      exact absurd hone hover

theorem toString_inj {m n : Nat} (h : toString m = toString n) : m = n := by
  have hdigits : ∀ k : Nat, Nat.ofDigitChars 10 (toString k).toList 0 = k := fun k =>
    (congrArg (fun l => Nat.ofDigitChars 10 l 0) Nat.toList_repr).trans
      Nat.ofDigitChars_ten_toDigits
  rw [← hdigits m, h, hdigits n]

/-- The client's next request is let through once its window is over, or as the counter wraps. -/
theorem next_isOk_iff {t : InMemoryThrottler} {next : Arrival R} {start count : Nat}
    (hlimit : limitOf routes t.default next.route = limit) (hone : 1 ≤ limit.limit)
    (hw : t.windows (clientKey next.client) = some ⟨start, count⟩) (hfull : limit.limit < count)
    (hcount : count < 2 ^ 32) :
    (serve routes t next).1.isOk = true ↔
      limit.window ≤ next.now - start ∨ count + 1 = 2 ^ 32 := by
  rw [isOk_serve rfl, hlimit]
  by_cases hle : limit.window ≤ next.now - start
  · rw [hitWindow_of_le hw hle]
    exact ⟨fun _ => Or.inl hle, fun _ => hone⟩
  · rw [hitWindow_of_lt hw (Nat.not_le.mp hle)]
    constructor
    · intro hcounted
      refine Or.inr ?_
      by_contra hne
      have hmod : (count + 1) % 2 ^ 32 = count + 1 := Nat.mod_eq_of_lt (by omega)
      simp only [hmod] at hcounted
      omega
    · rintro (hle' | hwraps)
      · exact absurd hle' hle
      · simp only [hwraps, Nat.mod_self]
        exact Nat.zero_le _

/-- The time left in a window, in whole seconds, is all of it or too little. -/
theorem covers_iff {start now length : Nat} (hlt : now - start < length) :
    length ≤ now + (length - (now - start)) / 10 ^ 9 * 10 ^ 9 - start ↔
      start ≤ now ∧ 10 ^ 9 ∣ start + length - now := by
  have hdown := Nat.div_mul_le_self (length - (now - start)) (10 ^ 9)
  constructor
  · intro hle
    have hstart : start ≤ now := by omega
    refine ⟨hstart, (length - (now - start)) / 10 ^ 9, ?_⟩
    rw [Nat.mul_comm]
    omega
  · rintro ⟨hstart, hdvd⟩
    have heq : length - (now - start) = start + length - now := by omega
    rw [heq, Nat.div_mul_cancel hdvd]
    omega

/-- **When `Retry-After` is honest.** In every history of requests under one limit of at least one
and for every rejection in it: from the time the header says, the client is let through, iff the
time left in its window is a whole number of seconds, counted from a reading that is not before the
window, or the rejected hit was the last that the counter holds, and the next wraps it. -/
theorem retry_after_honest_iff (routes : R → Option Throttle) (default limit : Throttle)
    (hlimit : ∀ route, limitOf routes default route = limit) (hone : 1 ≤ limit.limit)
    (xs : List (Arrival R)) (x : Arrival R)
    (hrejected : (serve routes (after routes xs (.new default)) x).1.isOk = false) :
    HonestRetryAfter routes (after routes xs (.new default)) x ↔
      ∃ w, (after routes xs (.new default)).windows (clientKey x.client) = some w ∧
        (w.start ≤ x.now ∧ 10 ^ 9 ∣ w.start + limit.window - x.now ∨ w.count + 2 = 2 ^ 32) := by
  have hdefault : (after routes xs (.new default)).default = default := default_after xs _
  have hcount : ∀ w, (after routes xs (.new default)).windows (clientKey x.client) = some w →
      w.count < 2 ^ 32 := by
    intro w hw
    refine count_after_lt (fun w h => ?_) hw
    cases h
  generalize after routes xs (.new default) = t at hrejected hdefault hcount ⊢
  obtain ⟨w, hw, hlt, hover, hfits, hanswer, hleft⟩ :=
    serve_rejected (by rw [hdefault, hlimit]) hone hcount hrejected
  -- what the next request finds, whatever the other clients do
  have hnext : ∀ (others : List (Arrival R)) (next : Arrival R),
      (∀ y ∈ others, clientKey y.client ≠ clientKey x.client) →
      clientKey next.client = clientKey x.client →
      ((serve routes (after routes others (serve routes t x).2) next).1.isOk = true ↔
        limit.window ≤ next.now - w.start ∨ w.count + 2 = 2 ^ 32) := by
    intro others next hothers hclient
    refine next_isOk_iff ?_ hone ?_ hover hfits
    · rw [default_after, default_serve, hdefault, hlimit]
    · rw [hclient, windows_after_of_ne hothers, hleft]
  constructor
  · intro hhonest
    refine ⟨w, hw, ?_⟩
    have hnone : ∀ y ∈ ([] : List (Arrival R)), clientKey y.client ≠ clientKey x.client :=
      fun y hy => absurd hy List.not_mem_nil
    let back : Arrival R :=
      ⟨x.route, x.client, x.now + (limit.window - (x.now - w.start)) / 10 ^ 9 * 10 ^ 9⟩
    have hback := hhonest _ hanswer _ rfl [] back hnone rfl (Nat.le_refl _)
    exact ((hnext [] back hnone rfl).mp hback).imp_left (covers_iff hlt).mp
  · rintro ⟨w', hw', hcond⟩ refused hrefused seconds hseconds others next hothers hclient hlater
    rw [hw] at hw'
    obtain rfl := Option.some.inj hw'
    rw [hanswer] at hrefused
    obtain rfl := Except.error.inj hrefused
    obtain rfl := toString_inj hseconds
    refine (hnext others next hothers hclient).mpr (hcond.imp_left fun hwhole => ?_)
    exact Nat.le_trans ((covers_iff hlt).mpr hwhole) (Nat.sub_le_sub_right hlater w.start)

/-- A route under the default limit. -/
def defaultRoute : Unit → Option Throttle := fun _ => none

/-- A request of its one client, at a tenth of a second. -/
def atTenth (tenth : Nat) : Arrival Unit := ⟨(), ⟨none, some "203.0.113.7"⟩, tenth * 10 ^ 8⟩

/-- One request a minute, and the first was made. -/
def afterFirst : InMemoryThrottler :=
  after defaultRoute [atTenth 0] (.new (.perMinute 1))

/-- The header of a second request, half a minute later. -/
theorem whole_seconds_honest :
    HonestRetryAfter defaultRoute (after defaultRoute [atTenth 0] (.new (.perMinute 1)))
      (atTenth 300) :=
  (retry_after_honest_iff defaultRoute (.perMinute 1) (.perMinute 1) (fun _ => rfl) (by decide)
    [atTenth 0] (atTenth 300) (by decide)).mpr ⟨⟨0, 1⟩, rfl, Or.inl (by decide)⟩

/-- Half a second after the first, the client is told to come back in 59 seconds, and is rejected
when it does. -/
theorem half_second_dishonest :
    (serve defaultRoute afterFirst (atTenth 5)).1 = .error ⟨429, "59", "Too Many Requests"⟩ ∧
      (serve defaultRoute (serve defaultRoute afterFirst (atTenth 5)).2 (atTenth 595)).1 =
        .error ⟨429, "0", "Too Many Requests"⟩ ∧
      ¬ HonestRetryAfter defaultRoute afterFirst (atTenth 5) := by
  have hfirst : (serve defaultRoute afterFirst (atTenth 5)).1 =
      .error ⟨429, "59", "Too Many Requests"⟩ := by decide
  have hagain : (serve defaultRoute (serve defaultRoute afterFirst (atTenth 5)).2
      (atTenth 595)).1 = .error ⟨429, "0", "Too Many Requests"⟩ := by decide
  refine ⟨hfirst, hagain, fun h => ?_⟩
  have hback : (serve defaultRoute (serve defaultRoute afterFirst (atTenth 5)).2
      (atTenth 595)).1.isOk = true := h _ hfirst 59 rfl [] (atTenth 595) (by simp) rfl (by decide)
  rw [hagain] at hback
  cases hback

end Nestrs.Throttler
