import StateSpace.Proofs.Bench
import Mathlib.Data.Int.ConditionallyCompleteOrder
import Mathlib.Order.ConditionallyCompleteLattice.Basic

/-!
# The time that a meter tells

A meter keeps the times of its latest entry and of its latest exit, whichever came first. Until it is
left for the first time it tells the time since the entry, and while it is outside it tells the time
between the two. An entry does not take the exit before it back: a meter that is entered again tells
the time from the new entry back to the old exit, which is below zero as soon as the clock has moved.
-/
namespace StateSpace

open Meter (Action)

namespace Meter

variable {τ β : Type} [Preorder τ] {m : Meter τ β} {now later : τ}

/-- What a meter knows of the times at which it was entered and left, seen from now. -/
structure Timed (m : Meter τ β) (now : τ) : Prop where
  started_le : ∀ a, m.started = some a → a ≤ now
  stopped_le : ∀ z, m.stopped = some z → z ≤ now
  /-- Inside, every exit was before the latest entry. -/
  inside : m.isActive = true → ∃ a, m.started = some a ∧ ∀ z, m.stopped = some z → z ≤ a
  /-- Outside, every entry was before the latest exit. -/
  outside : m.isActive = false → ∀ a, m.started = some a → ∃ z, m.stopped = some z ∧ a ≤ z

theorem timed_new [Footprint β] (now : τ) : Timed (new : Meter τ β) now where
  started_le := by simp [new]
  stopped_le := by simp [new]
  inside := by simp [new]
  outside := by simp [new]

theorem Timed.of_le (timed : Timed m now) (hle : now ≤ later) : Timed m later :=
  { timed with
    started_le := fun a ha => (timed.started_le a ha).trans hle
    stopped_le := fun z hz => (timed.stopped_le z hz).trans hle }

variable {g : Gauges τ β}

theorem Timed.enter (timed : Timed m (g.clock.shows 0)) :
    Timed (m.enter g).1 (g.clock.shows 0) where
  started_le a ha := (Option.some.inj ha).ge
  stopped_le := timed.stopped_le
  inside _ := ⟨g.clock.shows 0, rfl, timed.stopped_le⟩
  outside hidle := by cases hidle

variable [Footprint β]

theorem Timed.exit (timed : Timed m (g.clock.shows 0)) :
    Timed (m.exit g).1 (g.clock.shows 0) where
  started_le := timed.started_le
  stopped_le z hz := (Option.some.inj hz).ge
  inside hactive := by cases hactive
  outside _ a ha := ⟨g.clock.shows 0, rfl, timed.started_le a ha⟩

variable [Sub τ] [Zero τ]

theorem Timed.act (timed : Timed m (g.clock.shows 0)) (action : Action) :
    Timed (m.act g action).1 (g.clock.shows 0) := by
  cases action with
  | enter => exact timed.enter
  | exit isRaised => exact timed.exit
  | elapsed => exact timed
  | peak => exact timed

end Meter

namespace Bench

variable {ι τ β : Type} [DecidableEq ι] [Footprint β] [Sub τ] [Zero τ] {b : Bench ι τ β}
  {deed : ι × Action}

/-! ### Which entry and which exit came last -/

def isEntry (i : ι) (deed : ι × Action) : Bool :=
  match deed.2 with
  | .enter => decide (deed.1 = i)
  | _ => false

def isExit (i : ι) (deed : ι × Action) : Bool :=
  match deed.2 with
  | .exit _ => decide (deed.1 = i)
  | _ => false

/-- What the clock showed when something wanted was done last. -/
def lastShown (wanted : ι × Action → Bool) : Bench ι τ β → List (ι × Action) → Option τ
  | _, [] => none
  | b, deed :: later =>
      (lastShown wanted (b.act deed) later).or
        (if wanted deed then some (b.gauges.clock.shows 0) else none)

/-- Whether a meter was entered and not left since, if it is known whether it was so before. -/
def isInside (i : ι) (deeds : List (ι × Action)) (before : Bool) : Bool :=
  deeds.foldl (fun inside deed => isEntry i deed || inside && !isExit i deed) before

/-- What a meter keeps of the clock when something wanted is done is what the clock showed then. -/
theorem eq_lastShown_or {kept : Meter τ β → Option τ} {wanted : ι × Action → Bool} {i : ι}
    (hact : ∀ (b : Bench ι τ β) (deed : ι × Action), kept ((b.act deed).meters i) =
      if wanted deed then some (b.gauges.clock.shows 0) else kept (b.meters i))
    (deeds : List (ι × Action)) :
    kept ((b.after deeds).meters i) = (b.lastShown wanted deeds).or (kept (b.meters i)) := by
  induction deeds generalizing b with
  | nil => rfl
  | cons deed later ih =>
      have hlater : kept ((b.after (deed :: later)).meters i) = _ := ih (b := b.act deed)
      rw [hlater, hact, lastShown, Option.or_assoc]
      cases wanted deed <;> rfl

theorem started_act (b : Bench ι τ β) (i : ι) (deed : ι × Action) :
    ((b.act deed).meters i).started =
      if isEntry i deed then some (b.gauges.clock.shows 0) else (b.meters i).started := by
  obtain ⟨j, action⟩ := deed
  by_cases hself : j = i
  · subst hself
    rw [meters_act_self]
    cases action <;> simp [isEntry] <;> rfl
  · rw [meters_act_of_ne b action (Ne.symm hself)]
    cases action <;> simp [isEntry, hself]

theorem stopped_act (b : Bench ι τ β) (i : ι) (deed : ι × Action) :
    ((b.act deed).meters i).stopped =
      if isExit i deed then some (b.gauges.clock.shows 0) else (b.meters i).stopped := by
  obtain ⟨j, action⟩ := deed
  by_cases hself : j = i
  · subst hself
    rw [meters_act_self]
    cases action <;> simp [isExit] <;> rfl
  · rw [meters_act_of_ne b action (Ne.symm hself)]
    cases action <;> simp [isExit, hself]

theorem isActive_act (b : Bench ι τ β) (i : ι) (deed : ι × Action) :
    ((b.act deed).meters i).isActive =
      (isEntry i deed || (b.meters i).isActive && !isExit i deed) := by
  obtain ⟨j, action⟩ := deed
  by_cases hself : j = i
  · subst hself
    rw [meters_act_self]
    cases action <;> simp [isEntry, isExit] <;> rfl
  · rw [meters_act_of_ne b action (Ne.symm hself)]
    cases action <;> simp [isEntry, isExit, hself]

theorem isActive_after (i : ι) (deeds : List (ι × Action)) :
    ((b.after deeds).meters i).isActive = isInside i deeds (b.meters i).isActive := by
  induction deeds generalizing b with
  | nil => rfl
  | cons deed later ih =>
      have hlater : ((b.after (deed :: later)).meters i).isActive = _ := ih (b := b.act deed)
      rw [hlater, isActive_act]
      rfl

/-! ### The order of entries and exits -/

variable [Preorder τ]

/-- The clock never goes back, and all meters were entered and left in its course. -/
structure Steady (b : Bench ι τ β) : Prop where
  clock : Monotone b.gauges.clock.shows
  timed : ∀ i, (b.meters i).Timed (b.gauges.clock.shows 0)

theorem Steady.act (steady : Steady b) (deed : ι × Action) : Steady (b.act deed) := by
  obtain ⟨j, action⟩ := deed
  have hmeters : ∀ i, ((b.act (j, action)).meters i).Timed (b.gauges.clock.shows 0) := by
    intro i
    by_cases hself : i = j
    · subst hself
      rw [meters_act_self]
      exact (steady.timed i).act action
    · rw [meters_act_of_ne b action hself]
      exact steady.timed i
  obtain ⟨hle, hlater⟩ := Clock.shows_read_of_monotone steady.clock
  rcases (b.meters j).clock_act b.gauges action with hsame | hread
  · have hclock : (b.act (j, action)).gauges.clock = b.gauges.clock := hsame
    exact ⟨hclock ▸ steady.clock, fun i => hclock ▸ hmeters i⟩
  · have hclock : (b.act (j, action)).gauges.clock = b.gauges.clock.read.2 := hread
    exact ⟨hclock ▸ hlater, fun i => hclock ▸ (hmeters i).of_le hle⟩

theorem Steady.after (steady : Steady b) (deeds : List (ι × Action)) : Steady (b.after deeds) := by
  induction deeds generalizing b with
  | nil => exact steady
  | cons deed later ih => exact ih (steady.act deed)

/-! ### What a meter tells -/

/-- **The time that a meter tells.** On a clock that never goes back, after anything that was done
with any meters: a meter that was never entered tells zero. One that was entered and never left tells
the time since its latest entry. Any other tells the time from its latest entry to its latest exit.
Outside, that exit came after the entry, and the time is not below zero. Inside, the exit came before
the entry, and the time is below zero unless the clock stood still between the two. -/
theorem elapsed_of_deeds (hspan : ∀ a z : τ, 0 ≤ z - a ↔ a ≤ z) {g : Gauges τ β}
    (hclock : Monotone g.clock.shows) (deeds : List (ι × Action)) (i : ι) :
    let b : Bench ι τ β := (new g).after deeds
    let now := b.gauges.clock.shows 0
    let elapsed : τ := ((b.meters i).elapsed b.gauges).1
    let entered := lastShown (isEntry i) (new g) deeds
    let left := lastShown (isExit i) (new g) deeds
    (entered = none → elapsed = 0) ∧
    (∀ a, entered = some a → left = none → elapsed = now - a ∧ 0 ≤ elapsed) ∧
    (∀ a z, entered = some a → left = some z → elapsed = z - a ∧ (0 ≤ elapsed ↔ a ≤ z)) ∧
    (isInside i deeds false = false → 0 ≤ elapsed) ∧
    (isInside i deeds false = true → ∃ a, entered = some a ∧ ∀ z, left = some z → z ≤ a) := by
  intro b now elapsed entered left
  -- A new meter has no times, so that what it has is what the clock showed last.
  have hstarted : (b.meters i).started = entered :=
    (eq_lastShown_or (started_act · i) deeds).trans Option.or_none
  have hstopped : (b.meters i).stopped = left :=
    (eq_lastShown_or (stopped_act · i) deeds).trans Option.or_none
  have hinside : (b.meters i).isActive = isInside i deeds false := isActive_after i deeds
  have timed : (b.meters i).Timed now :=
    (Steady.after ⟨hclock, fun _ => Meter.timed_new _⟩ deeds).timed i
  have hnever : entered = none → elapsed = 0 := by
    intro hentered
    simp only [elapsed, Meter.elapsed, hstarted, hentered]
  have hopen : ∀ a, entered = some a → left = none → elapsed = now - a := by
    intro a hentered hleft
    simp only [elapsed, Meter.elapsed, hstarted, hstopped, hentered, hleft]
    rfl
  have hclosed : ∀ a z, entered = some a → left = some z → elapsed = z - a := by
    intro a z hentered hleft
    simp only [elapsed, Meter.elapsed, hstarted, hstopped, hentered, hleft]
  refine ⟨hnever, fun a ha hleft => ?_, fun a z ha hz => ?_, fun houtside => ?_, fun hin => ?_⟩
  · rw [hopen a ha hleft]
    exact ⟨rfl, (hspan _ _).mpr (timed.started_le a (hstarted.trans ha))⟩
  · rw [hclosed a z ha hz]
    exact ⟨rfl, hspan _ _⟩
  · cases hentered : entered with
    | none => exact (hnever hentered).ge
    | some a =>
        obtain ⟨z, hz, hle⟩ :=
          timed.outside (hinside.trans houtside) a (hstarted.trans hentered)
        rw [hclosed a z hentered (hstopped.symm.trans hz)]
        exact (hspan _ _).mpr hle
  · obtain ⟨a, ha, hle⟩ := timed.inside (hinside.trans hin)
    exact ⟨a, hstarted.symm.trans ha, fun z hz => hle z (hstopped.trans hz)⟩

/-- A clock that shows 0, 1, 5 and 7, and from then on 7. -/
def fourTimes : Gauges Int Int :=
  { clock := ⟨[0, 1, 5, 7], 0⟩, tracer := { isRunning := false, peaks := ⟨[], 0⟩ } }

theorem monotone_fourTimes : Monotone fourTimes.clock.shows :=
  Clock.monotone_shows_iff.mpr (by decide)

/-- Of two meters the second was entered at 1 and left at 5, with an exception, within the first,
which was entered at 0 and asked at 7. -/
theorem elapsed_of_deeds_within :
    let b := (new fourTimes).after [(1, .enter), (2, .enter), (2, .exit true)]
    (((b.meters 1).elapsed b.gauges).1 = (7 - 0 : Int) ∧
      (0 : Int) ≤ ((b.meters 1).elapsed b.gauges).1) ∧
    (((b.meters 2).elapsed b.gauges).1 = (5 - 1 : Int) ∧
      (0 : Int) ≤ ((b.meters 2).elapsed b.gauges).1) := by
  intro b
  have htimes := elapsed_of_deeds (fun _ _ : Int => Int.sub_nonneg) monotone_fourTimes
    [(1, .enter), (2, .enter), (2, .exit true)]
  obtain ⟨-, hfirst, -⟩ := htimes 1
  obtain ⟨-, -, hsecond, houtside, -⟩ := htimes 2
  exact ⟨hfirst 0 rfl rfl, (hsecond 1 5 rfl rfl).1, houtside rfl⟩

/-- A meter that was entered at 0, left at 1 and entered again at 5 tells four less than nothing
at 7, where two have passed since it was entered. -/
theorem elapsed_below_zero :
    let deeds := [((), Action.enter), ((), .exit false), ((), .enter)]
    let b := (new fourTimes).after deeds
    Monotone fourTimes.clock.shows ∧
    isInside () deeds false = true ∧
    lastShown (isEntry ()) (new fourTimes) deeds = some 5 ∧
    b.gauges.clock.shows 0 = 7 ∧
    ((b.meters ()).elapsed b.gauges).1 = (-4 : Int) :=
  ⟨monotone_fourTimes, rfl, rfl, rfl, rfl⟩

end Bench

end StateSpace
