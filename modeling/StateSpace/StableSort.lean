/-!
Sorting that keeps the order of equals: every item is inserted behind all that are not greater.
-/
namespace StateSpace

variable {α : Type}

/-- Puts `x` behind every leading item that is not greater. -/
def insertBehind (less : α → α → Bool) (x : α) : List α → List α
  | [] => [x]
  | y :: ys => if less x y then x :: y :: ys else y :: insertBehind less x ys

def stableSort (less : α → α → Bool) (xs : List α) : List α :=
  xs.foldl (fun sorted x => insertBehind less x sorted) []

theorem insertBehind_perm (less : α → α → Bool) (x : α) (xs : List α) :
    (insertBehind less x xs).Perm (x :: xs) := by
  induction xs with
  | nil => exact .refl _
  | cons y ys ih =>
    unfold insertBehind
    split
    · exact .refl _
    · exact (ih.cons y).trans (.swap x y ys)

theorem foldl_insertBehind_perm (less : α → α → Bool) (xs sorted : List α) :
    (xs.foldl (fun acc x => insertBehind less x acc) sorted).Perm (sorted ++ xs) := by
  induction xs generalizing sorted with
  | nil => simp
  | cons x xs ih =>
    refine (ih _).trans (((insertBehind_perm less x sorted).append_right xs).trans ?_)
    exact List.perm_middle.symm

theorem stableSort_perm (less : α → α → Bool) (xs : List α) : (stableSort less xs).Perm xs :=
  foldl_insertBehind_perm less xs []

end StateSpace
