import StateSpace.Meter
import Mathlib.Data.List.Chain
import Mathlib.Logic.Function.Basic
import Mathlib.Order.Monotone.Basic

/-!
# Meters in use

Several meters share one clock and one tracer. Each of them is entered, left and asked what it has
measured, in any order and any number of times. What one such action does is said here once: at most
one time is read off the clock, only entries and exits change a meter, and only they turn the tracer
on or off.
-/
namespace StateSpace

namespace Clock

variable {τ : Type}

/-- What a clock shows at each of its readings to come. -/
def shows : Clock τ → Nat → τ
  | c, 0 => c.read.1
  | c, i + 1 => c.read.2.shows i

section Order

variable [Preorder τ] {c : Clock τ}

/-- A clock that never goes back does not go back at its next reading, nor after it. -/
theorem shows_read_of_monotone (hclock : Monotone c.shows) :
    c.shows 0 ≤ c.read.2.shows 0 ∧ Monotone c.read.2.shows :=
  ⟨hclock (Nat.zero_le 1), fun _ _ hle => hclock (Nat.succ_le_succ hle)⟩

theorem monotone_shows_cons_iff {t latest : τ} {rest : List τ} :
    Monotone (shows ⟨t :: rest, latest⟩) ↔ t ≤ shows ⟨rest, t⟩ 0 ∧ Monotone (shows ⟨rest, t⟩) := by
  constructor
  · exact shows_read_of_monotone
  · rintro ⟨hfirst, hrest⟩
    refine monotone_nat_of_le_succ fun i => ?_
    cases i with
    | zero => exact hfirst
    | succ i => exact hrest (Nat.le_succ i)

/-- A clock never goes back just where the times to come are in order. -/
theorem monotone_shows_iff : Monotone c.shows ↔ c.upcoming.IsChain (· ≤ ·) := by
  obtain ⟨upcoming, latest⟩ := c
  induction upcoming generalizing latest with
  | nil =>
      have hstill : ∀ i, shows ⟨[], latest⟩ i = latest := by
        intro i
        induction i with
        | zero => rfl
        | succ i ih => exact ih
      simp only [List.IsChain.nil, iff_true]
      exact monotone_nat_of_le_succ fun i => by rw [hstill, hstill]
  | cons t rest ih =>
      rw [monotone_shows_cons_iff, ih]
      cases rest with
      | nil => simp [shows, read]
      | cons u rest => simp [shows, read]

end Order

end Clock

namespace Meter

/-- What can be done with a meter; an exception may pass through an exit. -/
inductive Action where
  | enter
  | exit (isRaised : Bool)
  | elapsed
  | peak
  deriving DecidableEq

variable {τ β δ : Type} (m : Meter τ β) (g : Gauges τ β)

/-! ### What a question changes -/

section Elapsed

variable [HSub τ τ δ] [Zero δ]

/-- To tell the time measured, one time is read off the clock or none. -/
theorem clock_elapsed :
    (m.elapsed g : δ × Gauges τ β).2.clock = g.clock ∨
      (m.elapsed g : δ × Gauges τ β).2.clock = g.clock.read.2 := by
  unfold elapsed
  split
  · exact Or.inl rfl
  · exact Or.inl rfl
  · exact Or.inr rfl

theorem tracer_elapsed : (m.elapsed g : δ × Gauges τ β).2.tracer = g.tracer := by
  unfold elapsed
  split <;> rfl

end Elapsed

section Peak

variable [Footprint β]

theorem clock_peak : (m.peak g).2.clock = g.clock := by
  unfold peak
  split <;> rfl

theorem isRunning_read (t : Tracer β) : t.read.2.isRunning = t.isRunning := by
  unfold Tracer.read
  split <;> rfl

theorem isRunning_peak : (m.peak g).2.tracer.isRunning = g.tracer.isRunning := by
  unfold peak
  split
  · exact isRunning_read g.tracer
  · rfl

end Peak

/-! ### What an action changes -/

variable [Instant τ] [Footprint β] [Sub τ] [Zero τ]

/-- The meter and what it shares after an action. An exit is the same with an exception as without
one. -/
def act : Action → Meter τ β × Gauges τ β
  | .enter => m.enter g
  | .exit _ => m.exit g
  | .elapsed => (m, (m.elapsed g : τ × Gauges τ β).2)
  | .peak => (m, (m.peak g).2)

variable (action : Action)

theorem clock_act :
    (m.act g action).2.clock = g.clock ∨ (m.act g action).2.clock = g.clock.read.2 := by
  cases action with
  | enter => exact Or.inr rfl
  | exit isRaised => exact Or.inr rfl
  | elapsed => exact m.clock_elapsed g
  | peak => exact Or.inl (m.clock_peak g)

theorem isRunning_act :
    (m.act g action).2.tracer.isRunning =
      match action with
      | .enter => true
      | .exit _ => g.tracer.isRunning && !m.ownsTrace
      | .elapsed | .peak => g.tracer.isRunning := by
  cases action with
  | enter => rfl
  | exit isRaised => exact congrArg (· && !m.ownsTrace) (isRunning_read g.tracer)
  | elapsed => exact congrArg Tracer.isRunning (m.tracer_elapsed g)
  | peak => exact m.isRunning_peak g

end Meter

/-- Meters by name, and what they share. -/
structure Bench (ι τ β : Type) where
  meters : ι → Meter τ β
  gauges : Gauges τ β

namespace Bench

open Meter (Action)

variable {ι τ β : Type} [DecidableEq ι] [Instant τ] [Footprint β] [Sub τ] [Zero τ]

/-- Meters that were never used. -/
def new (g : Gauges τ β) : Bench ι τ β := { meters := fun _ => .new, gauges := g }

/-- Does something with one of the meters. -/
def act (b : Bench ι τ β) (deed : ι × Action) : Bench ι τ β :=
  let (meter, gauges) := (b.meters deed.1).act b.gauges deed.2
  { meters := Function.update b.meters deed.1 meter, gauges }

/-- After things were done one after another. -/
def after (b : Bench ι τ β) (deeds : List (ι × Action)) : Bench ι τ β := deeds.foldl act b

variable (b : Bench ι τ β) {i j : ι} (action : Action)

theorem meters_act_self :
    (b.act (i, action)).meters i = ((b.meters i).act b.gauges action).1 :=
  Function.update_self i _ _

theorem meters_act_of_ne (hne : i ≠ j) : (b.act (j, action)).meters i = b.meters i :=
  Function.update_of_ne hne _ _

end Bench

end StateSpace
