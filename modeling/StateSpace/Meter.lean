/-!
Meters that time a stretch of work and note its peak of memory. All meters share one clock and one
tracer of memory; a meter that finds the tracer off turns it on and, on leaving, off again.
-/
namespace StateSpace

/-- What clocks show. Where anything may be shown, some of it is no time. -/
class Instant (τ : Type) where
  isTime : τ → Bool

/-- Unless it is said otherwise, all that is shown is a time. -/
instance (priority := low) (τ : Type) : Instant τ := ⟨fun _ => true⟩

/-- The time that is shown, if it is one. -/
def Instant.time? {τ : Type} [Instant τ] (t : τ) : Option τ := if isTime t then some t else none

@[simp]
theorem Instant.time?_int (t : Int) : time? t = some t := rfl

/-- What peaks of memory are counted in. -/
class Footprint (β : Type) where
  nothing : β
  /-- Bytes as whole kilobytes. -/
  kilobytes : β → β
  larger : β → β → β

instance : Footprint Int where
  nothing := 0
  kilobytes bytes := bytes.fdiv 1024
  larger := max

namespace Footprint

@[simp]
theorem nothing_int : (nothing : Int) = 0 := rfl

@[simp]
theorem kilobytes_int (bytes : Int) : kilobytes bytes = bytes.fdiv 1024 := rfl

@[simp]
theorem larger_int (a b : Int) : larger a b = max a b := rfl

end Footprint

/-- A clock by its readings to come; when there are none left the latest one stands. -/
structure Clock (τ : Type) where
  upcoming : List τ
  latest : τ

def Clock.read {τ : Type} (c : Clock τ) : τ × Clock τ :=
  match c.upcoming with
  | [] => (c.latest, c)
  | t :: rest => (t, { upcoming := rest, latest := t })

/-- A tracer of memory; its readings are peaks in bytes. -/
structure Tracer (β : Type) where
  isRunning : Bool
  peaks : Clock β

/-- The peak since the start of the trace; a tracer that is off reads nothing. -/
def Tracer.read {β : Type} [Footprint β] (t : Tracer β) : β × Tracer β :=
  if t.isRunning then
    let (peak, peaks) := t.peaks.read
    (peak, { t with peaks })
  else
    (Footprint.nothing, t)

/-- What all meters share. -/
structure Gauges (τ β : Type) where
  clock : Clock τ
  tracer : Tracer β

structure Meter (τ β : Type) where
  started : Option τ
  stopped : Option τ
  peakKb : β
  isActive : Bool
  ownsTrace : Bool

namespace Meter

variable {τ β : Type} [Instant τ] [Footprint β]

def new : Meter τ β :=
  { started := none, stopped := none, peakKb := Footprint.nothing, isActive := false,
    ownsTrace := false }

def enter (m : Meter τ β) (g : Gauges τ β) : Meter τ β × Gauges τ β :=
  let (now, clock) := g.clock.read
  ({ m with started := Instant.time? now, isActive := true, ownsTrace := !g.tracer.isRunning },
    { clock, tracer := { g.tracer with isRunning := true } })

def exit (m : Meter τ β) (g : Gauges τ β) : Meter τ β × Gauges τ β :=
  let (now, clock) := g.clock.read
  let (peak, tracer) := g.tracer.read
  ({ m with
      stopped := Instant.time? now
      isActive := false
      peakKb := Footprint.larger m.peakKb (Footprint.kilobytes peak) },
    { clock, tracer := { tracer with isRunning := tracer.isRunning && !m.ownsTrace } })

/-- The time measured: up to the exit, or up to now before the first exit. -/
def elapsed {δ : Type} [HSub τ τ δ] [Zero δ] (m : Meter τ β) (g : Gauges τ β) :
    δ × Gauges τ β :=
  match m.started, m.stopped with
  | none, _ => (0, g)
  | some start, some stop => (stop - start, g)
  | some start, none =>
      let (now, clock) := g.clock.read
      (now - start, { g with clock })

/-- The highest peak so far, the current trace included while the meter is active. -/
def peak (m : Meter τ β) (g : Gauges τ β) : β × Gauges τ β :=
  if m.isActive then
    let (peak, tracer) := g.tracer.read
    (Footprint.larger m.peakKb (Footprint.kilobytes peak), { g with tracer })
  else
    (m.peakKb, g)

end Meter

end StateSpace
