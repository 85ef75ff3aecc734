import Mathlib.Data.List.Chain
import Mathlib.Tactic.Ring

/-!
# Runs that keep a timetable

A worker that runs something again and again, one run at a time: each run is for a slot of a plan,
starts when the slot has come, and ends some time later, or not yet. The plan says which slot the
first run is for, and which slot is next after a run, given when that run started and ended.

`Plan.Kept` is the invariant of the history of such a worker. It is stated for neighbours, which is
what a step of the worker knows (`Kept.start`, `Kept.finish`); from that follows what holds between
any two runs (`Kept.pairwise_ended`, `Kept.pairwise_slot`, `Kept.add_mul_le`).
-/

namespace Nestrs.Lib

/-- One run: the slot that it is for, when it started, and when and how it ended. -/
structure TimedRun (ω : Type) where
  slot : Nat
  start : Nat
  ended : Option (Nat × ω)
deriving DecidableEq, Repr

/-- A plan: the slots that the first run may be for, those that may follow a run, and when a slot
has come. -/
structure Plan (ω : Type) where
  first : Nat → Prop
  follows : TimedRun ω → Nat → Prop
  reached : Nat → Nat → Prop

variable {ω : Type}

/-- The run has ended by this time. -/
def TimedRun.EndedBy (r : TimedRun ω) (t : Nat) : Prop := ∃ e o, r.ended = some (e, o) ∧ e ≤ t

namespace Plan

variable (plan : Plan ω) {now now' slot t : Nat} {o : ω} {r : TimedRun ω}
  {runs rest : List (TimedRun ω)}

/-- **The history keeps the plan.** The runs are listed from the latest to the first. -/
structure Kept (now : Nat) (runs : List (TimedRun ω)) : Prop where
  first : ∀ r ∈ runs.getLast?, plan.first r.slot
  chain : runs.IsChain fun later earlier =>
    plan.follows earlier later.slot ∧ earlier.EndedBy later.start
  reached : ∀ r ∈ runs, plan.reached r.start r.slot
  started : ∀ r ∈ runs, r.start ≤ now
  ended : ∀ r ∈ runs, ∀ e o, r.ended = some (e, o) → r.start ≤ e ∧ e ≤ now

/-- The slot may be the next one after these runs. -/
def Next (runs : List (TimedRun ω)) (slot : Nat) : Prop :=
  (runs = [] ∧ plan.first slot) ∨ ∃ r rest, runs = r :: rest ∧ plan.follows r slot

/-- No run is going on. -/
def Settled (runs : List (TimedRun ω)) : Prop := ∀ r ∈ runs, r.ended.isSome = true

/-- The latest run ends. -/
def finish (now : Nat) (o : ω) : List (TimedRun ω) → List (TimedRun ω)
  | [] => []
  | r :: rest => { r with ended := some (now, o) } :: rest

variable {plan}

theorem kept_nil : plan.Kept now [] :=
  ⟨nofun, List.isChain_nil, nofun, nofun, nofun⟩

namespace Kept

theorem mono (h : plan.Kept now runs) (hnow : now ≤ now') : plan.Kept now' runs where
  first := h.first
  chain := h.chain
  reached := h.reached
  started r hr := le_trans (h.started r hr) hnow
  ended r hr e o he := ⟨(h.ended r hr e o he).1, le_trans (h.ended r hr e o he).2 hnow⟩

/-- A run starts, when none is going on, for a next slot that has come. -/
theorem start (h : plan.Kept now runs) (hsettled : Settled runs) (hnext : plan.Next runs slot)
    (hreached : plan.reached now slot) : plan.Kept now (⟨slot, now, none⟩ :: runs) where
  first := by
    rcases hnext with ⟨rfl, hfirst⟩ | ⟨r, rest, rfl, -⟩
    · rintro r hr
      rw [List.getLast?_singleton, Option.mem_some_iff] at hr
      exact hr ▸ hfirst
    · rw [List.getLast?_cons_cons]
      exact h.first
  chain := by
    rcases hnext with ⟨rfl, -⟩ | ⟨r, rest, rfl, hfollows⟩
    · exact List.isChain_singleton _
    · rw [List.isChain_cons_cons]
      obtain ⟨⟨e, o⟩, he⟩ := Option.isSome_iff_exists.mp (hsettled r List.mem_cons_self)
      exact ⟨⟨hfollows, e, o, he, (h.ended r List.mem_cons_self e o he).2⟩, h.chain⟩
  reached := List.forall_mem_cons.mpr ⟨hreached, h.reached⟩
  started := List.forall_mem_cons.mpr ⟨le_refl _, h.started⟩
  ended := List.forall_mem_cons.mpr ⟨nofun, h.ended⟩

/-- The end of a run changes neither its slot nor its start, which is what its neighbour reads. -/
theorem finish (h : plan.Kept now (r :: rest)) (o : ω) :
    plan.Kept now (Plan.finish now o (r :: rest)) where
  first := by
    intro r' hr'
    cases rest with
    | nil =>
      rw [Plan.finish, List.getLast?_singleton, Option.mem_some_iff] at hr'
      subst hr'
      exact h.first r rfl
    | cons r₁ rest =>
      rw [Plan.finish, List.getLast?_cons_cons] at hr'
      exact h.first r' (by rwa [List.getLast?_cons_cons])
  chain := by
    cases rest with
    | nil => exact List.isChain_singleton _
    | cons r₁ rest =>
      have hchain := List.isChain_cons_cons.mp h.chain
      exact List.isChain_cons_cons.mpr hchain
  reached := List.forall_mem_cons.mpr (List.forall_mem_cons.mp h.reached)
  started := List.forall_mem_cons.mpr (List.forall_mem_cons.mp h.started)
  ended := by
    refine List.forall_mem_cons.mpr ⟨?_, (List.forall_mem_cons.mp h.ended).2⟩
    intro e o' he
    cases he
    exact ⟨h.started r List.mem_cons_self, le_refl _⟩

/-- What was kept without the latest run. -/
theorem tail (h : plan.Kept now (r :: rest)) : plan.Kept now rest where
  first := by
    intro x hx
    cases rest with
    | nil => exact nomatch hx
    | cons r₁ rest => exact h.first x (by rwa [List.getLast?_cons_cons])
  chain := h.chain.tail
  reached := (List.forall_mem_cons.mp h.reached).2
  started := (List.forall_mem_cons.mp h.started).2
  ended := (List.forall_mem_cons.mp h.ended).2

/-- What was kept without the latest runs. -/
theorem drop {newer : List (TimedRun ω)} (h : plan.Kept now (newer ++ runs)) :
    plan.Kept now runs := by
  induction newer with
  | nil => exact h
  | cons r newer ih => exact ih h.tail

/-- **No two runs overlap**: the earlier of any two has ended when the later one starts. -/
theorem pairwise_ended (h : plan.Kept now runs) :
    runs.Pairwise fun later earlier => earlier.EndedBy later.start := by
  induction runs with
  | nil => exact List.Pairwise.nil
  | cons r rest ih =>
    refine List.pairwise_cons.mpr ⟨?_, ih h.tail⟩
    cases rest with
    | nil => exact nofun
    | cons r₁ rest =>
      obtain ⟨⟨-, e₁, o₁, he₁, hle₁⟩, -⟩ := List.isChain_cons_cons.mp h.chain
      intro r' hr'
      rcases List.mem_cons.mp hr' with rfl | hr'
      · exact ⟨e₁, o₁, he₁, hle₁⟩
      · -- Down the chain: `r'` had ended when `r₁` started, and `r₁` when `r` did.
        obtain ⟨e, o, he, hle⟩ := (List.pairwise_cons.mp (ih h.tail)).1 r' hr'
        have hr₁ := h.tail.ended r₁ List.mem_cons_self e₁ o₁ he₁
        exact ⟨e, o, he, le_trans hle (le_trans hr₁.1 hle₁)⟩

/-- **The slots go up**, if the slot that follows a run is after the one of the run. -/
theorem pairwise_slot (h : plan.Kept now runs)
    (hlt : ∀ r ∈ runs, ∀ slot, plan.follows r slot → r.slot < slot) :
    runs.Pairwise fun later earlier => earlier.slot < later.slot := by
  have hchain : runs.IsChain fun later earlier => earlier.slot < later.slot :=
    h.chain.imp_of_mem_imp fun later earlier _ hearlier hrel =>
      hlt earlier hearlier later.slot hrel.1
  rw [← List.pairwise_map (f := TimedRun.slot) (R := fun a b => b < a)]
  exact List.isChain_iff_pairwise.mp ((List.isChain_map TimedRun.slot).mpr hchain)

/-- What holds of the first slot, and of a slot that follows a run whose slot has it, holds of the
slots of all runs. -/
theorem slot_induction {P : Nat → Prop} (h : plan.Kept now runs)
    (hfirst : ∀ slot, plan.first slot → P slot)
    (hfollows : ∀ r ∈ runs, P r.slot → ∀ slot, plan.follows r slot → P slot) :
    ∀ r ∈ runs, P r.slot := by
  induction runs with
  | nil => exact nofun
  | cons r rest ih =>
    have hrest := ih h.tail fun r' hr' => hfollows r' (List.mem_cons_of_mem r hr')
    refine List.forall_mem_cons.mpr ⟨?_, hrest⟩
    cases rest with
    | nil => exact hfirst r.slot (h.first r rfl)
    | cons r₁ rest =>
      obtain ⟨⟨hfollow, -⟩, -⟩ := List.isChain_cons_cons.mp h.chain
      exact hfollows r₁ (by simp) (hrest r₁ List.mem_cons_self) r.slot hfollow

/-- **Slots that are a gap apart bound the number of runs.** -/
theorem length_mul_le {base gap : Nat} (h : plan.Kept now (r :: rest))
    (hfirst : ∀ slot, plan.first slot → base + gap ≤ slot)
    (hfollows : ∀ r' ∈ r :: rest, ∀ slot, plan.follows r' slot → r'.slot + gap ≤ slot) :
    base + (rest.length + 1) * gap ≤ r.slot := by
  induction rest generalizing r with
  | nil => simpa using hfirst r.slot (h.first r rfl)
  | cons r₁ rest ih =>
    have hrest := ih h.tail fun r' hr' => hfollows r' (List.mem_cons_of_mem r hr')
    obtain ⟨⟨hfollow, -⟩, -⟩ := List.isChain_cons_cons.mp h.chain
    calc base + (rest.length + 1 + 1) * gap = base + (rest.length + 1) * gap + gap := by ring
      _ ≤ r₁.slot + gap := Nat.add_le_add_right hrest gap
      _ ≤ r.slot := hfollows r₁ (by simp) r.slot hfollow

/-- A bound on the slot after a run bounds the slots of the later ones, if slots are a gap apart. -/
theorem add_mul_le {base gap : Nat} {later earlier : TimedRun ω}
    {between older : List (TimedRun ω)}
    (h : plan.Kept now (later :: (between ++ earlier :: older)))
    (hnext : ∀ slot, plan.follows earlier slot → base ≤ slot)
    (hfollows : ∀ r ∈ between, ∀ slot, plan.follows r slot → r.slot + gap ≤ slot) :
    base + between.length * gap ≤ later.slot := by
  induction between generalizing later with
  | nil =>
    obtain ⟨⟨hfollow, -⟩, -⟩ := List.isChain_cons_cons.mp h.chain
    simpa using hnext later.slot hfollow
  | cons r between ih =>
    have hrest := ih h.tail fun r' hr' => hfollows r' (List.mem_cons_of_mem r hr')
    obtain ⟨⟨hfollow, -⟩, -⟩ := List.isChain_cons_cons.mp h.chain
    calc base + (between.length + 1) * gap = base + between.length * gap + gap := by ring
      _ ≤ r.slot + gap := Nat.add_le_add_right hrest gap
      _ ≤ later.slot := hfollows r List.mem_cons_self later.slot hfollow

end Kept

end Plan

end Nestrs.Lib
