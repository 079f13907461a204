/-!
Finding the place up to which something holds: by halving, or with growing strides from a near place
and by halving after that. Where the thing holds up to some place and nowhere after it, both ways
find that place; elsewhere the way of looking decides. A question without an answer ends the search.
-/
namespace StateSpace.Sorting

/-- A question about places that may have no answer. -/
abbrev Question := Nat → Option Bool

/-- The place found between `lo` and `hi` by asking in the middle. -/
def halve? (holds : Question) (lo hi : Nat) : Option Nat :=
  if lo < hi then
    match holds ((lo + hi) / 2) with
    | none => none
    | some true => halve? holds ((lo + hi) / 2 + 1) hi
    | some false => halve? holds lo ((lo + hi) / 2)
  else
    some lo
  termination_by hi - lo

/-- Strides that double and grow by one, as long as the answer is yes: the last one with that answer
and the first one without it, or the limit. -/
def stride? (holds : Question) (limit last next : Nat) : Option (Nat × Nat) :=
  if next < limit then
    match holds next with
    | none => none
    | some true => stride? holds limit next (2 * next + 1)
    | some false => some (last, next)
  else
    some (last, limit)
  termination_by limit - next

/-- The place found among `size` places from `start` on, upwards or downwards as the answer there
says. -/
def leap? (holds : Question) (size start : Nat) : Option Nat :=
  match holds start with
  | none => none
  | some true => do
      let (last, next) ← stride? (fun n => holds (start + n)) (size - start) 0 1
      halve? holds (start + last + 1) (start + next)
  | some false => do
      let (last, next) ← stride? (fun n => (holds (start - n)).map not) (start + 1) 0 1
      halve? holds (start + 1 - next) (start - last)

/-- Halving finds the place where what holds ends. -/
theorem halve?_eq_of_holds {holds : Question} {place lo hi : Nat} (hlo : lo ≤ place)
    (hhi : place ≤ hi) (h : ∀ n, lo ≤ n → n < hi → holds n = some (decide (n < place))) :
    halve? holds lo hi = some place := by
  fun_induction halve? holds lo hi with
  | case1 lo hi hlt hnone =>
      rw [h _ (by omega) (by omega)] at hnone
      simp at hnone
  | case2 lo hi hlt htrue ih =>
      rw [h _ (by omega) (by omega), Option.some.injEq, decide_eq_true_eq] at htrue
      exact ih htrue hhi fun n hn => h n (by omega)
  | case3 lo hi hlt hfalse ih =>
      rw [h _ (by omega) (by omega), Option.some.injEq, decide_eq_false_iff_not,
        Nat.not_lt] at hfalse
      exact ih hlo hfalse fun n hn hn' => h n hn (by omega)
  | case4 lo hi hle =>
      congr
      omega

end StateSpace.Sorting
