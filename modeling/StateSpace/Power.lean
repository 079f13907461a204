/-!
Powers of the two bases that numbers are written in.
-/
namespace StateSpace

/-- What a digit is worth that has `n` binary digits to its right. -/
def twoPow (n : Nat) : Nat := Nat.pow 2 n

/-- What a digit is worth that has `n` decimal digits to its right. -/
def tenPow (n : Nat) : Nat := Nat.pow 10 n

theorem tenPow_pos (n : Nat) : 0 < tenPow n := Nat.pow_pos (by decide)

theorem tenPow_succ (n : Nat) : tenPow (n + 1) = tenPow n * 10 := Nat.pow_succ 10 n

theorem tenPow_lt_tenPow_iff {m n : Nat} : tenPow m < tenPow n ↔ m < n :=
  Nat.pow_lt_pow_iff_right (by decide)

end StateSpace
