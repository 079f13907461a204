import StateSpace.Meter
import StateSpace.Value.Arithmetic

/-!
Values as readings of clocks and tracers. A clock that shows null shows no time; what cannot be
reckoned with takes the place of what was to be measured.
-/
namespace StateSpace.Value

instance : Instant Value := ⟨fun v => decide (v ≠ .null)⟩

/-- A value that was measured, or why there is none. -/
structure Measured where
  found : Except Defect Value

namespace Measured

instance : HSub Value Value Measured := ⟨fun v w => ⟨v.minus w⟩⟩

/-- The real zero. -/
instance : Zero Measured := ⟨⟨.ok (.real Binary64.zero)⟩⟩

/-- Of two values the first, unless it lies below the second. -/
def larger (v w : Value) : Except Defect Value := do
  if ← v.isBelow w then .ok w else .ok v

instance : Footprint Measured where
  nothing := ⟨.ok (.int 0)⟩
  kilobytes bytes := ⟨do (← bytes.found).floorDiv (.int 1024)⟩
  larger a b := ⟨do larger (← a.found) (← b.found)⟩

end Measured

end StateSpace.Value
