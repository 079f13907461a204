/-!
States that a search can look up. Equal states are one for it, and some may not be looked up at all.
-/
namespace StateSpace

class Keyed (σ : Type) where
  sameness : BEq σ
  hashing : Hashable σ
  /-- Whether a state can be looked up. -/
  isKey : σ → Bool

namespace Keyed

variable {σ : Type}

instance (priority := low) [Keyed σ] : BEq σ := sameness

instance (priority := low) [Keyed σ] : Hashable σ := hashing

/-- States with a decidable equality are looked up by it, every one of them. -/
instance (priority := low) [DecidableEq σ] [Hashable σ] : Keyed σ where
  sameness := inferInstance
  hashing := inferInstance
  isKey _ := true

@[simp]
theorem isKey_eq_true [DecidableEq σ] [Hashable σ] (s : σ) : isKey s = true := rfl

end Keyed

end StateSpace
